import ApiSurface.Proofs.Catalog.Distance
import ApiSurface.Proofs.Catalog.Properties

/-!
# The nearest declaration of a property

The flattened properties of a declaration are read off the declaration and its ancestors, in this
order, and the first property of each name is kept. As no ancestor comes before a nearer one, the
property that is kept stands in a declaration of its name as near as any.

* `Catalog.mem_lineage`, `pairwise_lineage`: a declaration and its ancestors, the nearer ones first;
* **`Catalog.flattenedProperties_nearest`**: which properties a declaration has with all that it
  inherits.
-/

namespace ApiSurface.Catalog

variable {c : Catalog} {d : Declaration}

/-! ## A declaration and its ancestors -/

/-- They are the declarations that some number of links leads to, none included. -/
theorem mem_lineage (hd : d ∈ c.declarations) {a : Declaration} :
    a ∈ d :: c.ancestors d.name ↔
      a ∈ c.declarations ∧ ∃ k, c.AboveBy k d.name a.name := by
  rw [List.mem_cons, mem_ancestors]
  constructor
  · rintro (rfl | ⟨ha, -, habove⟩)
    · exact ⟨hd, 0, rfl⟩
    · obtain ⟨k, -, hk⟩ := above_iff_exists_aboveBy.mp habove
      exact ⟨ha, k, hk⟩
  · rintro ⟨ha, k, hk⟩
    by_cases hself : a.name = d.name
    · exact Or.inl (eq_of_name_eq ha hd hself)
    · have hpos : 0 < k := Nat.pos_of_ne_zero fun h => hself (by subst h; exact hk.symm)
      exact Or.inr ⟨ha, hself, above_iff_exists_aboveBy.mpr ⟨k, hpos, hk⟩⟩

/-- However a declaration is reached, no more links lead to each of those before it. -/
theorem pairwise_lineage (hd : d ∈ c.declarations) :
    (d :: c.ancestors d.name).Pairwise fun a b =>
      ∀ j, c.AboveBy j d.name b.name → ∃ k, k ≤ j ∧ c.AboveBy k d.name a.name := by
  have hordered : (c.ancestors d.name).Pairwise fun a b =>
      c.distance d.name a.name ≤ c.distance d.name b.name := by
    rw [ancestors_eq (get?_name hd)]
    exact (spread_nearest _ (stage_one (get?_name hd))).2
  refine List.Pairwise.cons (fun b _ j _ => ⟨0, Nat.zero_le j, rfl⟩) ?_
  refine hordered.imp_of_mem fun {a b} ha hb hle j hj => ?_
  obtain ⟨-, hne, -⟩ := mem_ancestors.mp hb
  have hpos : 0 < j := Nat.pos_of_ne_zero fun h => hne (by subst h; exact hj.symm)
  have hb : c.distance d.name b.name ≤ j := Nat.sInf_le ⟨hpos, hj⟩
  have hsome : ∃ k, k ∈ {k | 0 < k ∧ c.AboveBy k d.name a.name} :=
    above_iff_exists_aboveBy.mp (mem_ancestors.mp ha).2.2
  exact ⟨c.distance d.name a.name, hle.trans hb, (Nat.sInf_mem hsome).2⟩

/-! ## The properties of a declaration with all that it inherits -/

theorem flattenedProperties_eq (hd : d ∈ c.declarations) : c.flattenedProperties d.name =
    firstOfName ((d :: c.ancestors d.name).flatMap Declaration.properties) [] := by
  unfold flattenedProperties
  rw [get?_name hd]

/-- A flattened property stands first of its name in some declaration, and none of those before
declares the name. -/
theorem exists_of_mem_flattenedProperties (hd : d ∈ c.declarations) {p : Property}
    (hp : p ∈ c.flattenedProperties d.name) :
    ∃ before a after, d :: c.ancestors d.name = before ++ a :: after ∧
      a.properties.find? (fun q => q.name = p.name) = some p ∧
        ∀ b ∈ before, p.name ∉ b.propertyNames := by
  rw [flattenedProperties_eq hd] at hp
  have hfind := find?_of_mem_firstOfName hp
  rw [List.find?_flatMap, List.findSome?_eq_some_iff] at hfind
  obtain ⟨before, a, after, hlineage, ha, hbefore⟩ := hfind
  refine ⟨before, a, after, hlineage, ha, fun b hb hmem => ?_⟩
  obtain ⟨q, hq, hqp⟩ := List.mem_map.mp hmem
  exact List.find?_eq_none.mp (hbefore b hb) q hq (by simpa using hqp)

/-- **The nearest declaration of a property counts**: the flattened properties of a declaration
have different names, those that the declarations at and above it declare, and each is the first of
its name in a declaration that no more links lead to than to any other that declares the name. -/
theorem flattenedProperties_nearest (hd : d ∈ c.declarations) :
    ((c.flattenedProperties d.name).map (·.name)).Nodup ∧
      (∀ n, n ∈ (c.flattenedProperties d.name).map (·.name) ↔
        ∃ a ∈ c.declarations, n ∈ a.propertyNames ∧ ∃ k, c.AboveBy k d.name a.name) ∧
      ∀ p ∈ c.flattenedProperties d.name, ∃ a ∈ c.declarations, ∃ k, c.AboveBy k d.name a.name ∧
        a.properties.find? (fun q => q.name = p.name) = some p ∧
          ∀ b ∈ c.declarations, p.name ∈ b.propertyNames →
            ∀ j, c.AboveBy j d.name b.name → k ≤ j := by
  refine ⟨?_, fun n => ?_, fun p hp => ?_⟩
  · rw [flattenedProperties_eq hd]
    exact nodup_firstOfName _ _
  · rw [mem_flattenedNames hd]
    simp only [mem_lineage hd, and_assoc]
    exact exists_congr fun a => and_congr_right fun _ => and_comm
  · obtain ⟨before, a, after, hlineage, hfind, hbefore⟩ := exists_of_mem_flattenedProperties hd hp
    have hmem : a ∈ d :: c.ancestors d.name := by rw [hlineage]; simp
    obtain ⟨ha, hpath⟩ := (mem_lineage hd).mp hmem
    classical
    refine ⟨a, ha, Nat.find hpath, Nat.find_spec hpath, hfind, fun b hb hdeclares j hj => ?_⟩
    have hordered := pairwise_lineage hd
    have hmemb := (mem_lineage hd).mpr ⟨hb, j, hj⟩
    rw [hlineage, List.pairwise_append] at hordered
    rw [hlineage, List.mem_append, List.mem_cons] at hmemb
    rcases hmemb with hb | rfl | hb
    · exact absurd hdeclares (hbefore b hb)
    · exact Nat.find_min' hpath hj
    · obtain ⟨k, hkj, hk⟩ := (List.pairwise_cons.mp hordered.2.1).1 b hb j hj
      exact (Nat.find_min' hpath hk).trans hkj

/-- A class that describes `id` twice, below two interfaces that both describe `size`. -/
def low : Declaration := ⟨"Low", none, true, .classType ⟨[⟨"id", .keyword .string, false, none⟩,
  ⟨"id", .keyword .number, false, none⟩], ["Left", "Right"], []⟩⟩

/-- The class and the interfaces above it, of which `Right` and `Top` lead back down. -/
def knot : Catalog :=
  (build [⟨low, "a.ts"⟩,
    ⟨⟨"Left", none, true, .interface ⟨[⟨"size", .keyword .number, false, none⟩], ["Top"], []⟩⟩,
      "a.ts"⟩,
    ⟨⟨"Right", none, true, .interface ⟨[⟨"size", .keyword .string, true, none⟩,
      ⟨"name", .keyword .string, false, none⟩], ["Top", "Low"], []⟩⟩, "a.ts"⟩,
    ⟨⟨"Top", none, true, .interface ⟨[⟨"name", .any, false, none⟩, ⟨"id", .any, false, none⟩],
      ["Left", "Gone"], []⟩⟩, "a.ts"⟩]).value

theorem flattenedProperties_nearest_knot :
    low ∈ knot.declarations ∧
      (knot.flattenedProperties "Low").map (·.name) = ["id", "size", "name"] ∧
      ∃ a ∈ knot.declarations, ∃ k, knot.AboveBy k "Low" a.name ∧
        a.properties.find? (fun q => q.name = "size") = some ⟨"size", .keyword .number, false, none⟩ ∧
          ∀ b ∈ knot.declarations, "size" ∈ b.propertyNames →
            ∀ j, knot.AboveBy j "Low" b.name → k ≤ j := by
  have hlow : low ∈ knot.declarations := List.mem_cons_self
  have hflat : knot.flattenedProperties "Low" = [⟨"id", .keyword .string, false, none⟩,
      ⟨"size", .keyword .number, false, none⟩, ⟨"name", .keyword .string, false, none⟩] := by
    have hget : knot.get? low.name = some low := get?_name hlow
    change knot.flattenedProperties low.name = _
    rw [flattenedProperties_eq hlow, ancestors_eq hget]
    rfl
  obtain ⟨-, -, hnearest⟩ := flattenedProperties_nearest hlow
  exact ⟨hlow, by rw [hflat]; rfl, hnearest ⟨"size", _, _, _⟩ (by
    change _ ∈ knot.flattenedProperties "Low"
    rw [hflat]
    exact List.mem_cons_of_mem _ List.mem_cons_self)⟩

end ApiSurface.Catalog
