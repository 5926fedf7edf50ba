import ApiSurface.Proofs.Catalog.Cycle

/-!
# Declared and inherited properties

A declaration keeps for itself only those of its properties that none of its ancestors declares.
Nothing is lost by it, unless declarations lie above themselves.

* `propertyNames`: the names of the properties that a declaration declares;
* `mem_firstOfName`, `find?_of_mem_firstOfName`: the first property of each name;
* `mem_inheritedNames`, `mem_ownNames`, `mem_flattenedNames`: names in terms of ancestors;
* **`exists_own_iff`**: what a declaration or an ancestor declares, one of them keeps for itself.
-/

namespace ApiSurface

/-- The names of the properties that a declaration declares. -/
def Declaration.propertyNames (d : Declaration) : List String := d.properties.map (·.name)

namespace Catalog

variable {c : Catalog}

theorem mem_firstOfName {n : String} {ps : List Property} {seen : List String} :
    n ∈ (firstOfName ps seen).map (·.name) ↔ n ∈ ps.map (·.name) ∧ n ∉ seen := by
  induction ps generalizing seen with
  | nil => simp [firstOfName]
  | cons p ps ih =>
    rw [firstOfName, List.map_cons, List.mem_cons]
    by_cases hp : seen.contains p.name = true
    · have hp' : p.name ∈ seen := List.contains_iff_mem.mp hp
      rw [if_pos hp, ih]
      constructor
      · rintro ⟨hn, hs⟩
        exact ⟨Or.inr hn, hs⟩
      · rintro ⟨rfl | hn, hs⟩
        · exact absurd hp' hs
        · exact ⟨hn, hs⟩
    · have hp' : p.name ∉ seen := fun h => hp (List.contains_iff_mem.mpr h)
      rw [if_neg hp, List.map_cons, List.mem_cons, ih, List.mem_cons]
      constructor
      · rintro (rfl | ⟨hn, hs⟩)
        · exact ⟨Or.inl rfl, hp'⟩
        · exact ⟨Or.inr hn, fun h => hs (Or.inr h)⟩
      · rintro ⟨hn, hs⟩
        by_cases hnp : n = p.name
        · exact Or.inl hnp
        · exact Or.inr ⟨hn.resolve_left hnp, fun h => h.elim hnp hs⟩

theorem nodup_firstOfName (ps : List Property) (seen : List String) :
    ((firstOfName ps seen).map (·.name)).Nodup := by
  induction ps generalizing seen with
  | nil => exact List.nodup_nil
  | cons p ps ih =>
    rw [firstOfName]
    split_ifs
    · exact ih seen
    · rw [List.map_cons, List.nodup_cons]
      refine ⟨fun hp => ?_, ih _⟩
      exact (mem_firstOfName.mp hp).2 List.mem_cons_self

theorem find?_of_mem_firstOfName {p : Property} {ps : List Property} {seen : List String}
    (h : p ∈ firstOfName ps seen) : ps.find? (fun q => q.name = p.name) = some p := by
  induction ps generalizing seen with
  | nil => exact absurd h List.not_mem_nil
  | cons q ps ih =>
    have hnew : p.name ∉ seen := (mem_firstOfName.mp (List.mem_map_of_mem h)).2
    rw [firstOfName] at h
    split_ifs at h with hq
    · have hne : q.name ≠ p.name := fun e => hnew (e ▸ List.contains_iff_mem.mp hq)
      rw [List.find?_cons_of_neg (by simpa using hne)]
      exact ih h
    · rcases List.mem_cons.mp h with rfl | h
      · rw [List.find?_cons_of_pos (by simp)]
      · have hne : q.name ≠ p.name := fun e =>
          (mem_firstOfName.mp (List.mem_map_of_mem h)).2 (e ▸ List.mem_cons_self)
        rw [List.find?_cons_of_neg (by simpa using hne)]
        exact ih h

theorem mem_of_mem_firstOfName {p : Property} {ps : List Property} {seen : List String}
    (h : p ∈ firstOfName ps seen) : p ∈ ps :=
  List.mem_of_find?_eq_some (find?_of_mem_firstOfName h)

/-- **Inherited names** are those that a declaration above declares. -/
theorem mem_inheritedNames {name n : String} :
    n ∈ c.inheritedNames name ↔ ∃ a ∈ c.ancestors name, n ∈ a.propertyNames :=
  List.mem_flatMap

/-- A declaration keeps a name that it declares unless an ancestor declares it. -/
theorem mem_ownNames {d : Declaration} {n : String} :
    n ∈ (c.ownProperties d).map (·.name) ↔
      n ∈ d.propertyNames ∧ ∀ a ∈ c.ancestors d.name, n ∉ a.propertyNames := by
  have hinherited : n ∉ c.inheritedNames d.name ↔
      ∀ a ∈ c.ancestors d.name, n ∉ a.propertyNames := by
    simp [mem_inheritedNames]
  rw [← hinherited]
  unfold ownProperties Declaration.propertyNames
  simp only [List.mem_map, List.mem_filter]
  constructor
  · rintro ⟨p, ⟨hp, hown⟩, rfl⟩
    exact ⟨⟨p, hp, rfl⟩, by simpa using hown⟩
  · rintro ⟨⟨p, hp, rfl⟩, hown⟩
    exact ⟨p, ⟨hp, by simpa using hown⟩, rfl⟩

/-- All names that a declaration or an ancestor declares are in the flattened list. -/
theorem mem_flattenedNames {d : Declaration} (hd : d ∈ c.declarations) {n : String} :
    n ∈ (c.flattenedProperties d.name).map (·.name) ↔
      ∃ a ∈ d :: c.ancestors d.name, n ∈ a.propertyNames := by
  unfold flattenedProperties
  rw [get?_name hd]
  dsimp only
  rw [mem_firstOfName, List.map_flatMap, List.mem_flatMap]
  exact and_iff_left List.not_mem_nil

/-- **Nothing is lost above**: where no declaration lies above itself, a name that a declaration or
one of its ancestors declares is kept by one of them. -/
theorem exists_own_iff (h : ∀ n, ¬ c.Above n n) {d : Declaration} (hd : d ∈ c.declarations)
    (n : String) :
    (∃ a ∈ d :: c.ancestors d.name, n ∈ (c.ownProperties a).map (·.name)) ↔
      ∃ a ∈ d :: c.ancestors d.name, n ∈ a.propertyNames := by
  constructor
  · rintro ⟨a, ha, hn⟩
    exact ⟨a, ha, (mem_ownNames.mp hn).1⟩
  · rintro ⟨a, ha, hn⟩
    have hdeclared : a ∈ c.declarations ∧ (a.name = d.name ∨ c.Above d.name a.name) := by
      rcases List.mem_cons.mp ha with rfl | ha
      · exact ⟨hd, Or.inl rfl⟩
      · obtain ⟨ha, -, habove⟩ := mem_ancestors.mp ha
        exact ⟨ha, Or.inr habove⟩
    -- a topmost declaration of the name at or above the one found has no ancestor that declares it
    obtain ⟨m, hm, ⟨b, hb, rfl, hbn⟩, htop⟩ := exists_topmost h
      (p := fun m => ∃ b ∈ c.declarations, b.name = m ∧ n ∈ b.propertyNames)
      ⟨a, hdeclared.1, rfl, hn⟩
    have hbd : b.name = d.name ∨ c.Above d.name b.name := by
      rcases hm with hm | hm
      · rw [hm]
        exact hdeclared.2
      · rcases hdeclared.2 with ha | ha
        · exact Or.inr (ha ▸ hm)
        · exact Or.inr (ha.trans hm)
    refine ⟨b, ?_, mem_ownNames.mpr ⟨hbn, fun k hk hkn => ?_⟩⟩
    · rw [List.mem_cons]
      rcases hbd with hbd | hbd
      · exact Or.inl (eq_of_name_eq hb hd hbd)
      · exact Or.inr (mem_ancestors.mpr ⟨hb, fun e => h _ (e ▸ hbd), hbd⟩)
    · obtain ⟨hk, -, habove⟩ := mem_ancestors.mp hk
      exact htop k.name habove ⟨k, hk, rfl, hkn⟩

end Catalog

end ApiSurface
