import ApiSurface.Proofs.Catalog.Reach
import Mathlib.Order.Lattice.Nat

/-!
# How far up an ancestor lies

Ancestors come in rounds, and the declarations of a round lie one link further up than those of the
round before it.

* `Catalog.AboveBy`, `Catalog.distance`: paths of so many links, and the length of a shortest one;
* `Catalog.Stage`: what has been seen and what waits before a round, kept by one round
  (`Stage.next`);
* `Catalog.spread_nearest`: all rounds from one on;
* `Ascent.wellFounded_next?`: no ascent goes on for ever;
* **`Catalog.ancestors_nearest_first`**: which declarations are ancestors, and in which order.
-/

namespace ApiSurface

theorem Ascent.wellFounded_next? (c : Catalog) :
    WellFounded fun b a : Ascent => a.next? c = some b :=
  Subrelation.wf Ascent.next?_lt
    (InvImage.wf (fun a : Ascent => (a.missing c, a.queue.length))
      (Prod.lex Nat.lt_wfRel Nat.lt_wfRel).wf)

namespace Catalog

variable {c : Catalog} {start : String} {k : ℕ} {names seen : List String}

/-! ## Paths of so many links -/

/-- A path of so many links to supertypes leads from one name to another. -/
def AboveBy (c : Catalog) : ℕ → String → String → Prop
  | 0, m, n => m = n
  | k + 1, m, n => ∃ l, c.AboveBy k m l ∧ c.Link Declaration.supertypes l n

/-- The number of links on a shortest path that has one. -/
noncomputable def distance (c : Catalog) (m n : String) : ℕ := sInf {k | 0 < k ∧ c.AboveBy k m n}

theorem above_iff_exists_aboveBy {m n : String} :
    c.Above m n ↔ ∃ k, 0 < k ∧ c.AboveBy k m n := by
  constructor
  · intro h
    induction h with
    | single hl => exact ⟨1, Nat.one_pos, m, rfl, hl⟩
    | tail _ hl ih =>
      obtain ⟨k, -, hk⟩ := ih
      exact ⟨k + 1, Nat.succ_pos k, _, hk, hl⟩
  · rintro ⟨k, hpos, hk⟩
    induction k generalizing n with
    | zero => omega
    | succ k ih =>
      obtain ⟨l, hl, hn⟩ := hk
      by_cases hzero : k = 0
      · subst hzero
        cases hl
        exact .single hn
      · exact .tail (ih (by omega) hl) hn

theorem distance_eq {m n : String} (hpos : 0 < k) (h : c.AboveBy k m n)
    (hleast : ∀ j, 0 < j → j < k → ¬ c.AboveBy j m n) : c.distance m n = k := by
  have hmem : k ∈ {j | 0 < j ∧ c.AboveBy j m n} := ⟨hpos, h⟩
  have hle : c.distance m n ≤ k := Nat.sInf_le hmem
  obtain ⟨hdpos, hd⟩ := Nat.sInf_mem ⟨k, hmem⟩
  by_contra hne
  exact hleast _ hdpos (by change c.distance m n < k; omega) hd

/-! ## One round -/

/-- Before round `k`, the declared names that have been seen are the start and those that fewer
links lead to, and of the others those wait that `k` links lead to. -/
structure Stage (c : Catalog) (start : String) (k : ℕ) (names seen : List String) : Prop where
  pos : 0 < k
  before : ∀ n, c.contains n = true →
    (n ∈ seen ↔ n = start ∨ ∃ j, 0 < j ∧ j < k ∧ c.AboveBy j start n)
  waiting : ∀ n, c.contains n = true → n ∉ seen → (n ∈ names ↔ c.AboveBy k start n)

theorem stage_one {d : Declaration} (hd : c.get? start = some d) :
    c.Stage start 1 d.supertypes [start] where
  pos := Nat.one_pos
  before n _ := by simp
  waiting n hn _ := by
    constructor
    · intro hmem
      exact ⟨start, rfl, d, hd, hmem, hn⟩
    · rintro ⟨l, hl, e, he, hmem, -⟩
      cases hl
      rw [hd] at he
      cases he
      exact hmem

/-- A declaration met in round `k` lies `k` links above the start. -/
theorem Stage.distance_eq (h : c.Stage start k names seen) {d : Declaration}
    (hd : d ∈ c.fresh names seen) : c.AboveBy k start d.name ∧ c.distance start d.name = k := by
  obtain ⟨hdecl, hmem, hnew⟩ := mem_fresh.mp hd
  have hc : c.contains d.name = true := contains_iff.mpr ⟨d, hdecl, rfl⟩
  have hk : c.AboveBy k start d.name := (h.waiting _ hc hnew).mp hmem
  refine ⟨hk, Catalog.distance_eq h.pos hk fun j hpos hlt hj => ?_⟩
  exact hnew ((h.before _ hc).mpr (Or.inr ⟨j, hpos, hlt, hj⟩))

theorem Stage.mem_ring (h : c.Stage start k names seen) {n : String} (hn : c.contains n = true)
    (hnew : n ∉ seen) :
    n ∈ (c.fresh names seen).map (·.name) ↔ c.AboveBy k start n := by
  obtain ⟨d, hd, rfl⟩ := contains_iff.mp hn
  rw [← h.waiting _ hn hnew, List.mem_map]
  constructor
  · rintro ⟨e, he, hed⟩
    rw [← hed]
    exact (mem_fresh.mp he).2.1
  · intro hmem
    exact ⟨d, mem_fresh.mpr ⟨hd, hmem, hnew⟩, rfl⟩

/-- **One round.** -/
theorem Stage.next (h : c.Stage start k names seen) :
    c.Stage start (k + 1) ((c.fresh names seen).flatMap Declaration.supertypes)
      (seen ++ (c.fresh names seen).map (·.name)) where
  pos := Nat.succ_pos k
  before n hn := by
    rw [List.mem_append]
    by_cases hs : n ∈ seen
    · have hearlier := (h.before n hn).mp hs
      simp only [hs, true_or, true_iff]
      rcases hearlier with rfl | ⟨j, hpos, hlt, hj⟩
      · exact Or.inl rfl
      · exact Or.inr ⟨j, hpos, by omega, hj⟩
    · have hearlier : ¬ (n = start ∨ ∃ j, 0 < j ∧ j < k ∧ c.AboveBy j start n) :=
        fun hb => hs ((h.before n hn).mpr hb)
      rw [h.mem_ring hn hs]
      constructor
      · rintro (hseen | hk)
        · exact absurd hseen hs
        · exact Or.inr ⟨k, h.pos, by omega, hk⟩
      · rintro (rfl | ⟨j, hpos, hlt, hj⟩)
        · exact absurd (Or.inl rfl) hearlier
        · by_cases hjk : j = k
          · exact Or.inr (hjk ▸ hj)
          · exact absurd (Or.inr ⟨j, hpos, by omega, hj⟩) hearlier
  waiting n hn hnew := by
    rw [List.mem_append, not_or] at hnew
    rw [List.mem_flatMap]
    constructor
    · rintro ⟨d, hd, hmem⟩
      have hdecl := (mem_fresh.mp hd).1
      exact ⟨d.name, (h.distance_eq hd).1, d, get?_name hdecl, hmem, hn⟩
    · rintro ⟨l, hl, e, he, hmem, -⟩
      obtain ⟨hedecl, rfl⟩ := get?_eq_some_iff.mp he
      have hlink : c.Link Declaration.supertypes e.name n := ⟨e, he, hmem, hn⟩
      have hce : c.contains e.name = true := contains_of_get? he
      by_cases hs : e.name ∈ seen
      · -- a link from what was seen leads to what has been seen by now
        have hsoon : c.AboveBy k start n ∨ ∃ j, 0 < j ∧ j < k ∧ c.AboveBy j start n := by
          have hstep : ∃ i, i < k ∧ c.AboveBy i start e.name := by
            rcases (h.before _ hce).mp hs with hstart | ⟨j, -, hlt, hj⟩
            · exact ⟨0, h.pos, hstart.symm⟩
            · exact ⟨j, hlt, hj⟩
          obtain ⟨i, hi, hpath⟩ := hstep
          have hn' : c.AboveBy (i + 1) start n := ⟨e.name, hpath, hlink⟩
          by_cases hik : i + 1 = k
          · exact Or.inl (hik ▸ hn')
          · exact Or.inr ⟨i + 1, Nat.succ_pos i, by omega, hn'⟩
        rcases hsoon with hk | hj
        · exact absurd ((h.mem_ring hn hnew.1).mpr hk) hnew.2
        · exact absurd ((h.before n hn).mpr (Or.inr hj)) hnew.1
      · obtain ⟨d, hd, hde⟩ := List.mem_map.mp ((h.mem_ring hce hs).mpr hl)
        have hdecl := (mem_fresh.mp hd).1
        exact ⟨d, hd, by rwa [eq_of_name_eq hdecl hedecl hde]⟩

/-! ## All rounds -/

/-- **From round `k` on**, all declarations lie at least `k` links above the start, the nearer ones
first. -/
theorem spread_nearest (fuel : ℕ) (h : c.Stage start k names seen) :
    (∀ d ∈ c.spread Declaration.supertypes fuel names seen, k ≤ c.distance start d.name) ∧
      (c.spread Declaration.supertypes fuel names seen).Pairwise
        fun d e => c.distance start d.name ≤ c.distance start e.name := by
  induction fuel generalizing k names seen with
  | zero => exact ⟨fun d hd => absurd hd List.not_mem_nil, List.Pairwise.nil⟩
  | succ fuel ih =>
    by_cases hnil : c.fresh names seen = []
    · rw [spread_succ_nil fuel names seen hnil]
      exact ⟨fun d hd => absurd hd List.not_mem_nil, List.Pairwise.nil⟩
    · obtain ⟨hfar, hordered⟩ := ih h.next
      have hring : ∀ d ∈ c.fresh names seen, c.distance start d.name = k :=
        fun d hd => (h.distance_eq hd).2
      rw [spread_succ fuel names seen hnil]
      constructor
      · intro d hd
        rcases List.mem_append.mp hd with hd | hd
        · have := hring d hd
          omega
        · have := hfar d hd
          omega
      · refine List.pairwise_append.mpr ⟨?_, hordered, fun d hd e he => ?_⟩
        · refine List.pairwise_of_forall_mem_list fun d hd e he => ?_
          rw [hring d hd, hring e he]
        · have := hring d hd
          have := hfar e he
          omega

/-- No round meets a declaration again. -/
theorem nodup_spread {links : Declaration → List String} (fuel : ℕ) (names seen : List String) :
    ((c.spread links fuel names seen).map (·.name)).Nodup := by
  induction fuel generalizing names seen with
  | zero => exact List.nodup_nil
  | succ fuel ih =>
    by_cases hnil : c.fresh names seen = []
    · rw [spread_succ_nil fuel names seen hnil]
      exact List.nodup_nil
    · rw [spread_succ fuel names seen hnil, List.map_append]
      refine List.nodup_append.mpr ⟨nodup_fresh names seen, ih _ _, ?_⟩
      intro m hm n hn hmn
      obtain ⟨d, hd, rfl⟩ := List.mem_map.mp hn
      exact (spread_sound fuel _ _ d hd).2.1 (List.mem_append_right _ (hmn ▸ hm))

/-- **The ancestors of a name**: no ascent from it goes on for ever, and what it meets are the other
declarations above the name, each once, in the order of the lengths of the shortest paths to
them. -/
theorem ancestors_nearest_first (c : Catalog) (name : String) :
    (WellFounded fun b a : Ascent => a.next? c = some b) ∧
      (∀ a, a ∈ c.ancestors name ↔ a ∈ c.declarations ∧ a.name ≠ name ∧ c.Above name a.name) ∧
      ((c.ancestors name).map (·.name)).Nodup ∧
      (∀ a ∈ c.ancestors name, 0 < c.distance name a.name ∧
        c.AboveBy (c.distance name a.name) name a.name ∧
        ∀ k, 0 < k → c.AboveBy k name a.name → c.distance name a.name ≤ k) ∧
      (c.ancestors name).Pairwise fun a b => c.distance name a.name ≤ c.distance name b.name := by
  have hshortest : ∀ a ∈ c.ancestors name, 0 < c.distance name a.name ∧
      c.AboveBy (c.distance name a.name) name a.name ∧
      ∀ k, 0 < k → c.AboveBy k name a.name → c.distance name a.name ≤ k := by
    intro a ha
    have hsome : ∃ k, k ∈ {k | 0 < k ∧ c.AboveBy k name a.name} :=
      above_iff_exists_aboveBy.mp (mem_ancestors.mp ha).2.2
    obtain ⟨hpos, hpath⟩ := Nat.sInf_mem hsome
    exact ⟨hpos, hpath, fun j hj hpathj => Nat.sInf_le ⟨hj, hpathj⟩⟩
  refine ⟨Ascent.wellFounded_next? c, fun a => mem_ancestors, ?_, hshortest, ?_⟩
  · cases hd : c.get? name with
    | none => rw [ancestors_eq_nil hd]; exact List.nodup_nil
    | some d => rw [ancestors_eq hd]; exact nodup_spread _ _ _
  · cases hd : c.get? name with
    | none => rw [ancestors_eq_nil hd]; exact List.Pairwise.nil
    | some d => rw [ancestors_eq hd]; exact (spread_nearest _ (stage_one hd)).2

end Catalog

end ApiSurface
