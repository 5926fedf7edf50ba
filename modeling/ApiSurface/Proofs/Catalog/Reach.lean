import ApiSurface.Proofs.Catalog.Lookup
import Mathlib.Data.List.Perm.Subperm
import Mathlib.Logic.Relation

/-!
# What lies above a declaration

A search along links finds exactly the declared names that a path of links leads to: the rounds it
is given suffice, since each but the last meets a new declaration.

* `Catalog.Link`, `Above`: links between declared names, and paths along supertypes;
* `Catalog.Searching`: what has been seen, and enough rounds for the rest;
* `Catalog.run_eq_spread`: an ascent along supertypes goes round by round;
* `Catalog.mem_spread_iff`: what a search from the links of a declaration finds;
* **`Catalog.mem_ancestors`**, **`reaches_iff`**: ancestors and cycles in terms of paths.
-/

namespace ApiSurface.Catalog

variable {c : Catalog} {links : Declaration → List String}

/-- The declaration of a name links to a declared name. -/
def Link (c : Catalog) (links : Declaration → List String) (m n : String) : Prop :=
  ∃ d, c.get? m = some d ∧ n ∈ links d ∧ c.contains n = true

/-- A name is reached from another by one or more links to supertypes. -/
def Above (c : Catalog) (m n : String) : Prop :=
  Relation.TransGen (c.Link Declaration.supertypes) m n

theorem Above.contains_left {m n : String} (h : c.Above m n) : c.contains m = true := by
  obtain ⟨k, ⟨d, hd, -, -⟩, -⟩ := Relation.TransGen.head'_iff.mp h
  rw [contains_eq_isSome_get?, hd]
  rfl

theorem not_above_of_get?_eq_none {m : String} (h : c.get? m = none) (n : String) :
    ¬ c.Above m n := by
  intro hn
  have := hn.contains_left
  rw [contains_eq_isSome_get?, h] at this
  cases this

theorem Above.contains_right {m n : String} (h : c.Above m n) : c.contains n = true := by
  obtain ⟨k, -, ⟨d, -, -, hn⟩⟩ := Relation.TransGen.tail'_iff.mp h
  exact hn

/-! ## One round -/

theorem mem_fresh {names seen : List String} {d : Declaration} :
    d ∈ c.fresh names seen ↔ d ∈ c.declarations ∧ d.name ∈ names ∧ d.name ∉ seen := by
  induction names generalizing seen with
  | nil => simp [fresh]
  | cons n ns ih =>
    rw [fresh]
    by_cases hs : seen.contains n
    · rw [if_pos hs, ih, List.mem_cons]
      refine and_congr_right fun _ => ⟨fun h => ⟨Or.inr h.1, h.2⟩, fun h => ⟨?_, h.2⟩⟩
      exact h.1.resolve_left fun e => h.2 (by rw [e]; exact List.contains_iff_mem.mp hs)
    · rw [if_neg hs]
      have hs' : n ∉ seen := fun h => hs (List.contains_iff_mem.mpr h)
      cases hn : c.get? n with
      | none =>
        rw [ih, List.mem_cons]
        refine and_congr_right fun hd => ⟨fun h => ⟨Or.inr h.1, h.2⟩, fun h => ⟨?_, h.2⟩⟩
        refine h.1.resolve_left fun e => ?_
        rw [← e, get?_name hd] at hn
        cases hn
      | some e =>
        obtain ⟨he, rfl⟩ := get?_eq_some_iff.mp hn
        rw [List.mem_cons, ih, List.mem_cons, List.mem_cons]
        constructor
        · rintro (rfl | ⟨hd, hns, hseen⟩)
          · exact ⟨he, Or.inl rfl, hs'⟩
          · exact ⟨hd, Or.inr hns, fun h => hseen (Or.inr h)⟩
        · rintro ⟨hd, hns, hseen⟩
          by_cases hde : d.name = e.name
          · exact Or.inl (eq_of_name_eq hd he hde)
          · exact Or.inr ⟨hd, hns.resolve_left hde, fun h => h.elim hde hseen⟩

theorem nodup_fresh (names seen : List String) :
    ((c.fresh names seen).map (·.name)).Nodup := by
  induction names generalizing seen with
  | nil => exact List.nodup_nil
  | cons n ns ih =>
    rw [fresh]
    split_ifs
    · exact ih seen
    · cases hn : c.get? n with
      | none => exact ih seen
      | some e =>
        obtain ⟨-, rfl⟩ := get?_eq_some_iff.mp hn
        refine List.nodup_cons.mpr ⟨fun h => ?_, ih (e.name :: seen)⟩
        obtain ⟨d, hd, hde⟩ := List.mem_map.mp h
        exact (mem_fresh.mp hd).2.2 (by rw [hde]; exact List.mem_cons_self)

/-! ## All rounds -/

/-- What a search has seen is declared, each name once, and the rounds left suffice for the
rest. -/
structure Searching (c : Catalog) (fuel : ℕ) (seen : List String) : Prop where
  nodup : seen.Nodup
  declared : ∀ n ∈ seen, c.contains n = true
  enough : c.rounds ≤ fuel + seen.length

theorem Searching.mem_of_zero {seen : List String} (h : c.Searching 0 seen) {n : String}
    (hn : c.contains n = true) : n ∈ seen := by
  have hsub : seen ⊆ c.names := fun m hm => mem_names.mpr (h.declared m hm)
  have hlen : c.names.length ≤ seen.length := by
    have := h.enough
    rw [Nat.zero_add] at this
    rwa [Table.names, List.length_map]
  exact ((h.nodup.subperm hsub).perm_of_length_le hlen).mem_iff.mpr (mem_names.mpr hn)

theorem Searching.step {fuel : ℕ} {names seen : List String} (h : c.Searching (fuel + 1) seen)
    (hne : c.fresh names seen ≠ []) :
    c.Searching fuel (seen ++ (c.fresh names seen).map (·.name)) where
  nodup := by
    refine List.nodup_append.mpr ⟨h.nodup, nodup_fresh names seen, ?_⟩
    intro m hm n hn hmn
    obtain ⟨d, hd, rfl⟩ := List.mem_map.mp hn
    exact (mem_fresh.mp hd).2.2 (hmn ▸ hm)
  declared := by
    intro m hm
    rcases List.mem_append.mp hm with hm | hm
    · exact h.declared m hm
    · obtain ⟨d, hd, rfl⟩ := List.mem_map.mp hm
      exact contains_iff.mpr ⟨d, (mem_fresh.mp hd).1, rfl⟩
  enough := by
    have := h.enough
    have := List.length_pos_iff.mpr hne
    rw [List.length_append, List.length_map]
    omega

theorem spread_succ (fuel : ℕ) (names seen : List String) (hne : c.fresh names seen ≠ []) :
    c.spread links (fuel + 1) names seen = c.fresh names seen ++
      c.spread links fuel ((c.fresh names seen).flatMap links)
        (seen ++ (c.fresh names seen).map (·.name)) := by
  rw [spread]
  cases h : c.fresh names seen with
  | nil => exact absurd h hne
  | cons d ds => rfl

theorem spread_succ_nil (fuel : ℕ) (names seen : List String) (h : c.fresh names seen = []) :
    c.spread links (fuel + 1) names seen = [] := by
  rw [spread, h]

/-- All that a search finds is declared, new, and reached from where it starts. -/
theorem spread_sound (fuel : ℕ) (names seen : List String) :
    ∀ d ∈ c.spread links fuel names seen, d ∈ c.declarations ∧ d.name ∉ seen ∧
      ∃ n ∈ names, c.contains n = true ∧ Relation.ReflTransGen (c.Link links) n d.name := by
  induction fuel generalizing names seen with
  | zero => exact fun d hd => absurd hd List.not_mem_nil
  | succ fuel ih =>
    intro d hd
    by_cases hne : c.fresh names seen = []
    · rw [spread_succ_nil fuel names seen hne] at hd
      exact absurd hd List.not_mem_nil
    rw [spread_succ fuel names seen hne] at hd
    rcases List.mem_append.mp hd with hd | hd
    · obtain ⟨hdecl, hmem, hnew⟩ := mem_fresh.mp hd
      exact ⟨hdecl, hnew, d.name, hmem, contains_iff.mpr ⟨d, hdecl, rfl⟩, .refl⟩
    · obtain ⟨hdecl, hnew, n, hn, hcn, hpath⟩ := ih _ _ d hd
      obtain ⟨e, he, hne⟩ := List.mem_flatMap.mp hn
      obtain ⟨hedecl, hemem, -⟩ := mem_fresh.mp he
      refine ⟨hdecl, fun h => hnew (List.mem_append_left _ h), e.name, hemem,
        contains_iff.mpr ⟨e, hedecl, rfl⟩, hpath.head ⟨e, get?_name hedecl, hne, hcn⟩⟩

/-- A search leaves out no declared name that it starts with or that something it finds links to. -/
theorem spread_closed {fuel : ℕ} {names seen : List String} (h : c.Searching fuel seen) :
    ∀ n, (n ∈ names ∨ ∃ d ∈ c.spread links fuel names seen, n ∈ links d) →
      c.contains n = true → n ∉ seen → n ∈ (c.spread links fuel names seen).map (·.name) := by
  induction fuel generalizing names seen with
  | zero => exact fun n _ hc hs => absurd (h.mem_of_zero hc) hs
  | succ fuel ih =>
    intro n hn hc hs
    obtain ⟨e, he, rfl⟩ := contains_iff.mp hc
    by_cases hne : c.fresh names seen = []
    · rw [spread_succ_nil fuel names seen hne] at hn
      rcases hn with hn | ⟨d, hd, -⟩
      · have : e ∈ c.fresh names seen := mem_fresh.mpr ⟨he, hn, hs⟩
        rw [hne] at this
        exact absurd this List.not_mem_nil
      · exact absurd hd List.not_mem_nil
    rw [spread_succ fuel names seen hne] at hn ⊢
    rw [List.map_append, List.mem_append]
    by_cases hring : e.name ∈ (c.fresh names seen).map (·.name)
    · exact Or.inl hring
    right
    refine ih (h.step hne) e.name ?_ hc fun h' => (List.mem_append.mp h').elim hs hring
    rcases hn with hn | ⟨d, hd, hdn⟩
    · exact absurd (List.mem_map.mpr ⟨e, mem_fresh.mpr ⟨he, hn, hs⟩, rfl⟩) hring
    · rcases List.mem_append.mp hd with hd | hd
      · exact Or.inl (List.mem_flatMap.mpr ⟨d, hd, hdn⟩)
      · exact Or.inr ⟨d, hd, hdn⟩

/-! ## Ascents go round by round -/

/-- What is new depends only on which declared names have been seen. -/
theorem fresh_congr {seen seen' : List String}
    (h : ∀ n, c.contains n = true → (n ∈ seen ↔ n ∈ seen')) (names : List String) :
    c.fresh names seen = c.fresh names seen' := by
  induction names generalizing seen seen' with
  | nil => rfl
  | cons n ns ih =>
    rw [fresh, fresh]
    cases hn : c.get? n with
    | none =>
      dsimp only
      rw [ih h, ite_self, ite_self]
    | some d =>
      have hseen : seen.contains n = seen'.contains n := by
        rw [Bool.eq_iff_iff, List.contains_iff_mem, List.contains_iff_mem]
        exact h n (contains_of_get? hn)
      have hcons : ∀ m, c.contains m = true → (m ∈ n :: seen ↔ m ∈ n :: seen') := by
        intro m hm
        rw [List.mem_cons, List.mem_cons, h m hm]
      dsimp only
      rw [hseen, ih h, ih hcons]

theorem run_next {a b : Ascent} (h : a.next? c = some b) : a.run c = b.run c := by
  rw [Ascent.run]
  split
  · next hnone => rw [h] at hnone; cases hnone
  · next b' hb => rw [h] at hb; cases hb; rfl

theorem run_done (visited : List String) (met : List Declaration) :
    Ascent.run c ⟨[], visited, met⟩ = met := by
  rw [Ascent.run]
  rfl

/-- Names that wait are looked at before those behind them: the new ones are met, and their
supertypes wait. -/
theorem exists_run_ring (names rest visited : List String) (met : List Declaration) :
    ∃ visited', (∀ n, n ∈ visited' ↔ n ∈ visited ∨ n ∈ names) ∧
      Ascent.run c ⟨names ++ rest, visited, met⟩ =
        Ascent.run c ⟨rest ++ (c.fresh names visited).flatMap Declaration.supertypes, visited',
          met ++ c.fresh names visited⟩ := by
  induction names generalizing rest visited met with
  | nil => exact ⟨visited, by simp, by simp [fresh]⟩
  | cons n ns ih =>
    rw [List.cons_append]
    by_cases hn : n ∈ visited
    · obtain ⟨visited', hvisited, hrun⟩ := ih rest visited met
      refine ⟨visited', fun m => ?_, ?_⟩
      · rw [hvisited, List.mem_cons]
        by_cases hm : m = n
        · simp [hm, hn]
        · simp [hm]
      · have hnext : Ascent.next? c ⟨n :: (ns ++ rest), visited, met⟩ =
            some ⟨ns ++ rest, visited, met⟩ := by simp [Ascent.next?, hn]
        rw [run_next hnext, hrun, fresh, if_pos (List.contains_iff_mem.mpr hn)]
    · have hmem : ∀ m, m ∈ n :: visited ∨ m ∈ ns ↔ m ∈ visited ∨ m ∈ n :: ns := by
        intro m
        rw [List.mem_cons, List.mem_cons]
        tauto
      rw [fresh, if_neg (by simpa using hn)]
      cases hd : c.get? n with
      | none =>
        obtain ⟨visited', hvisited, hrun⟩ := ih rest (n :: visited) met
        have hfresh : c.fresh ns (n :: visited) = c.fresh ns visited := by
          refine fresh_congr (fun m hm => ?_) ns
          have hne : m ≠ n := by
            rintro rfl
            rw [contains_eq_isSome_get?, hd] at hm
            cases hm
          simp [hne]
        rw [hfresh] at hrun
        have hnext : Ascent.next? c ⟨n :: (ns ++ rest), visited, met⟩ =
            some ⟨ns ++ rest, n :: visited, met⟩ := by simp [Ascent.next?, hn, hd]
        exact ⟨visited', fun m => (hvisited m).trans (hmem m), (run_next hnext).trans hrun⟩
      | some d =>
        obtain ⟨visited', hvisited, hrun⟩ := ih (rest ++ d.supertypes) (n :: visited) (met ++ [d])
        have hnext : Ascent.next? c ⟨n :: (ns ++ rest), visited, met⟩ =
            some ⟨ns ++ (rest ++ d.supertypes), n :: visited, met ++ [d]⟩ := by
          simp [Ascent.next?, hn, hd]
        refine ⟨visited', fun m => (hvisited m).trans (hmem m), ?_⟩
        rw [run_next hnext, hrun]
        simp

/-- **An ascent goes round by round.** Of the declared names it has looked at those that the rounds
have seen. -/
theorem run_eq_spread {fuel : ℕ} {names visited seen : List String} (h : c.Searching fuel seen)
    (hseen : ∀ n, c.contains n = true → (n ∈ visited ↔ n ∈ seen)) (met : List Declaration) :
    Ascent.run c ⟨names, visited, met⟩ =
      met ++ c.spread Declaration.supertypes fuel names seen := by
  induction fuel generalizing names visited seen met with
  | zero =>
    obtain ⟨visited', -, hrun⟩ := exists_run_ring (c := c) names [] visited met
    have hnil : c.fresh names seen = [] := by
      refine List.eq_nil_iff_forall_not_mem.mpr fun d hd => ?_
      obtain ⟨hdecl, -, hnew⟩ := mem_fresh.mp hd
      exact hnew (h.mem_of_zero (contains_iff.mpr ⟨d, hdecl, rfl⟩))
    rw [fresh_congr hseen, hnil] at hrun
    simpa [run_done, spread] using hrun
  | succ fuel ih =>
    obtain ⟨visited', hvisited, hrun⟩ := exists_run_ring (c := c) names [] visited met
    rw [fresh_congr hseen] at hrun
    by_cases hnil : c.fresh names seen = []
    · rw [spread_succ_nil fuel names seen hnil]
      rw [hnil] at hrun
      simpa [run_done] using hrun
    · have hseen' : ∀ n, c.contains n = true →
          (n ∈ visited' ↔ n ∈ seen ++ (c.fresh names seen).map (·.name)) := by
        intro n hn
        obtain ⟨d, hd, rfl⟩ := contains_iff.mp hn
        rw [hvisited, List.mem_append, hseen _ hn]
        constructor
        · rintro (hs | hmem)
          · exact Or.inl hs
          · by_cases hs : d.name ∈ seen
            · exact Or.inl hs
            · exact Or.inr (List.mem_map.mpr ⟨d, mem_fresh.mpr ⟨hd, hmem, hs⟩, rfl⟩)
        · rintro (hs | hring)
          · exact Or.inl hs
          · obtain ⟨e, he, hed⟩ := List.mem_map.mp hring
            exact Or.inr (hed ▸ (mem_fresh.mp he).2.1)
      rw [List.nil_append] at hrun
      rw [List.append_nil] at hrun
      rw [hrun, ih (h.step hnil) hseen', spread_succ fuel names seen hnil, List.append_assoc]

/-- A search from a declared name has seen the name and no other. -/
theorem searching_start {name : String} (h : c.contains name = true) :
    c.Searching c.rounds [name] :=
  ⟨List.nodup_singleton name, fun n hn => by rwa [List.mem_singleton.mp hn], Nat.le_add_right _ _⟩

/-- Ancestors as the rounds of a search. -/
theorem ancestors_eq {name : String} {d : Declaration} (hd : c.get? name = some d) :
    c.ancestors name = c.spread Declaration.supertypes c.rounds d.supertypes [name] := by
  unfold ancestors
  rw [hd]
  dsimp only
  rw [run_eq_spread (searching_start (contains_of_get? hd)) (fun _ _ => Iff.rfl), List.nil_append]

theorem ancestors_eq_nil {name : String} (hd : c.get? name = none) : c.ancestors name = [] := by
  unfold ancestors
  rw [hd]

/-! ## Paths -/

/-- Along a path, a search from the links of its start finds every name, unless it has seen it. -/
theorem spread_complete {fuel : ℕ} {seen : List String} (h : c.Searching fuel seen)
    {start : String} {d : Declaration} (hd : c.get? start = some d) (hs : ∀ n ∈ seen, n = start)
    {n : String} (hn : Relation.TransGen (c.Link links) start n) :
    n ∈ seen ∨ n ∈ (c.spread links fuel (links d) seen).map (·.name) := by
  induction hn with
  | single hl =>
    obtain ⟨e, he, hn, hcn⟩ := hl
    rw [hd] at he
    cases he
    exact or_iff_not_imp_left.mpr fun hns => spread_closed h _ (Or.inl hn) hcn hns
  | tail _ hl ih =>
    obtain ⟨e, he, hn, hcn⟩ := hl
    refine or_iff_not_imp_left.mpr fun hns => spread_closed h _ ?_ hcn hns
    rcases ih with ih | ih
    · rw [hs _ ih, hd] at he
      cases he
      exact Or.inl hn
    · obtain ⟨f, hf, rfl⟩ := List.mem_map.mp ih
      rw [get?_name (spread_sound fuel (links d) seen f hf).1] at he
      obtain rfl := Option.some.inj he
      exact Or.inr ⟨f, hf, hn⟩

/-- **A search from the links of a declaration finds the names that a path leads to.** What it has
seen before can only be the start. -/
theorem mem_spread_iff {fuel : ℕ} {seen : List String} (h : c.Searching fuel seen)
    {start : String} {d : Declaration} (hd : c.get? start = some d) (hs : ∀ n ∈ seen, n = start)
    (a : Declaration) : a ∈ c.spread links fuel (links d) seen ↔
      a ∈ c.declarations ∧ a.name ∉ seen ∧
        Relation.TransGen (c.Link links) start a.name := by
  constructor
  · intro ha
    obtain ⟨hdecl, hnew, n, hn, hcn, hpath⟩ := spread_sound fuel (links d) seen a ha
    exact ⟨hdecl, hnew, Relation.TransGen.head' ⟨d, hd, hn, hcn⟩ hpath⟩
  · rintro ⟨hdecl, hnew, hpath⟩
    have hfound := (spread_complete h hd hs hpath).resolve_left hnew
    obtain ⟨b, hb, hba⟩ := List.mem_map.mp hfound
    rwa [← eq_of_name_eq (spread_sound fuel (links d) seen b hb).1 hdecl hba]

/-- **The ancestors of a name are the other declarations above it.** -/
theorem mem_ancestors {name : String} {a : Declaration} :
    a ∈ c.ancestors name ↔ a ∈ c.declarations ∧ a.name ≠ name ∧ c.Above name a.name := by
  cases hd : c.get? name with
  | none =>
    rw [ancestors_eq_nil hd]
    exact iff_of_false List.not_mem_nil fun h => not_above_of_get?_eq_none hd _ h.2.2
  | some d =>
    rw [ancestors_eq hd, mem_spread_iff (searching_start (contains_of_get? hd)) hd
      fun n hn => List.mem_singleton.mp hn, List.mem_singleton]
    rfl

/-- **One declaration reaches another if a path of supertypes leads there.** -/
theorem reaches_iff {name target : String} :
    c.reaches name target = true ↔ c.Above name target := by
  unfold reaches above
  rw [List.any_eq_true]
  cases hd : c.get? name with
  | none =>
    exact iff_of_false (fun ⟨a, ha, _⟩ => List.not_mem_nil ha) (not_above_of_get?_eq_none hd _)
  | some d =>
    have hs : c.Searching c.rounds [] :=
      ⟨List.nodup_nil, fun n hn => absurd hn List.not_mem_nil, Nat.le_add_right _ _⟩
    simp only [mem_spread_iff hs hd fun n hn => absurd hn List.not_mem_nil, decide_eq_true_eq]
    constructor
    · rintro ⟨a, ⟨-, -, ha⟩, rfl⟩
      exact ha
    · intro h
      obtain ⟨a, ha, rfl⟩ := contains_iff.mp h.contains_right
      exact ⟨a, ⟨ha, List.not_mem_nil, h⟩, rfl⟩

end ApiSurface.Catalog
