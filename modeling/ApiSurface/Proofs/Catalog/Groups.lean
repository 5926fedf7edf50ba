import ApiSurface.Proofs.Catalog.Building
import ApiSurface.Proofs.Catalog.Cycle
import Mathlib.Data.String.Basic

/-!
# Which cycles are reported

A name lies on a cycle if it lies above itself, and two names lie on the same cycles if each lies
above the other. The names are looked at in some order; one that lies on a cycle is reported with
its whole group, unless it was reported already.

* `Catalog.mem_cycleOf`, `pairwise_cycleOf`: the group of a name;
* `Catalog.Whole`: names of which each is there with its whole group;
* `Catalog.disjoint_cyclesThrough`, `exists_cyclesThrough`: what is reported behind such names;
* **`Catalog.cycles_exact`**: the notes on cycles are the groups of the names that lie above
  themselves.
-/

namespace ApiSurface.Catalog

variable {c : Catalog} {names reported : List String}

/-! ## One group -/

theorem mem_cycleOf {m n : String} : n ∈ c.cycleOf m ↔ c.Above m n ∧ c.Above n m := by
  unfold cycleOf
  rw [List.mem_mergeSort, List.mem_filter, Bool.and_eq_true, reaches_iff, reaches_iff]
  exact and_iff_right_of_imp fun h => mem_names.mpr h.1.contains_right

/-- The names of a group increase, so each stands once. -/
theorem pairwise_cycleOf (n : String) : (c.cycleOf n).Pairwise (· < ·) := by
  have hsorted : (c.cycleOf n).Pairwise fun a b => decide (a ≤ b) = true := by
    refine List.pairwise_mergeSort ?_ ?_ _
    · intro a b d hab hbd
      simp only [decide_eq_true_eq] at hab hbd ⊢
      exact le_trans hab hbd
    · intro a b
      simp only [Bool.or_eq_true, decide_eq_true_eq]
      exact le_total a b
  have hnodup : (c.cycleOf n).Nodup := by
    refine (List.mergeSort_perm _ _).nodup_iff.mpr (List.Nodup.filter _ ?_)
    exact c.distinct
  refine (hsorted.and hnodup).imp ?_
  rintro a b ⟨hle, hne⟩
  exact lt_of_le_of_ne (of_decide_eq_true hle) hne

/-! ## One group after the other -/

/-- With each name, all names of its group are there. -/
def Whole (c : Catalog) (reported : List String) : Prop :=
  ∀ m ∈ reported, ∀ n, c.Above m n → c.Above n m → n ∈ reported

theorem whole_nil : c.Whole [] := fun _ hm => absurd hm List.not_mem_nil

/-- One more group. -/
theorem Whole.append_cycleOf (h : c.Whole reported) (m : String) :
    c.Whole (reported ++ c.cycleOf m) := by
  intro n hn k hnk hkn
  rcases List.mem_append.mp hn with hn | hn
  · exact List.mem_append_left _ (h n hn k hnk hkn)
  · obtain ⟨hmn, hnm⟩ := mem_cycleOf.mp hn
    exact List.mem_append_right _ (mem_cycleOf.mpr ⟨hmn.trans hnk, hkn.trans hnm⟩)

theorem Whole.disjoint_cycleOf (h : c.Whole reported) {m : String} (hm : m ∉ reported) :
    List.Disjoint reported (c.cycleOf m) := by
  intro n hn hmem
  obtain ⟨hmn, hnm⟩ := mem_cycleOf.mp hmem
  exact hm (h n hn m hnm hmn)

/-- What is reported is the group of a name that lies above itself. -/
theorem exists_of_mem_cyclesThrough {group : List String}
    (h : group ∈ c.cyclesThrough names reported) : ∃ n, c.Above n n ∧ group = c.cycleOf n := by
  induction names generalizing reported with
  | nil => exact absurd h List.not_mem_nil
  | cons n ns ih =>
    rw [cyclesThrough] at h
    split_ifs at h with hskip
    · exact ih h
    · rcases List.mem_cons.mp h with rfl | h
      · have hnew : n ∉ reported ∧ c.reaches n n = true := by simpa using hskip
        exact ⟨n, reaches_iff.mp hnew.2, rfl⟩
      · exact ih h

/-- Groups are disjoint from what was reported before and from each other. -/
theorem disjoint_cyclesThrough (h : c.Whole reported) :
    (∀ group ∈ c.cyclesThrough names reported, List.Disjoint reported group) ∧
      (c.cyclesThrough names reported).Pairwise List.Disjoint := by
  induction names generalizing reported with
  | nil => exact ⟨fun group hgroup => absurd hgroup List.not_mem_nil, List.Pairwise.nil⟩
  | cons n ns ih =>
    rw [cyclesThrough]
    split_ifs with hskip
    · exact ih h
    · have hnew : n ∉ reported := fun hn => hskip (by simp [hn])
      obtain ⟨hbefore, hpairwise⟩ := ih (h.append_cycleOf n)
      constructor
      · intro group hgroup
        rcases List.mem_cons.mp hgroup with rfl | hgroup
        · exact h.disjoint_cycleOf hnew
        · exact (List.disjoint_append_left.mp (hbefore group hgroup)).1
      · refine List.pairwise_cons.mpr ⟨fun group hgroup => ?_, hpairwise⟩
        exact (List.disjoint_append_left.mp (hbefore group hgroup)).2

/-- A name that lies above itself was reported or is in one of the groups. -/
theorem exists_cyclesThrough (reported : List String) {n : String} (hn : n ∈ names)
    (hself : c.Above n n) :
    n ∈ reported ∨ ∃ group ∈ c.cyclesThrough names reported, n ∈ group := by
  induction names generalizing reported with
  | nil => exact absurd hn List.not_mem_nil
  | cons m ms ih =>
    rw [cyclesThrough]
    rcases List.mem_cons.mp hn with rfl | hn
    · by_cases hmem : n ∈ reported
      · exact Or.inl hmem
      · right
        have hreaches : c.reaches n n = true := reaches_iff.mpr hself
        rw [if_neg (by simp [hmem, hreaches])]
        exact ⟨c.cycleOf n, List.mem_cons_self, mem_cycleOf.mpr ⟨hself, hself⟩⟩
    · split_ifs with hskip
      · exact ih reported hn
      · rcases ih (reported ++ c.cycleOf m) hn with hmem | ⟨group, hgroup, hmem⟩
        · rcases List.mem_append.mp hmem with hmem | hmem
          · exact Or.inl hmem
          · exact Or.inr ⟨c.cycleOf m, List.mem_cons_self, hmem⟩
        · exact Or.inr ⟨group, List.mem_cons_of_mem _ hgroup, hmem⟩

/-! ## All groups -/

theorem mem_cycles_iff {m n : String} :
    (∃ group ∈ c.cycles, m ∈ group ∧ n ∈ group) ↔ c.Above m n ∧ c.Above n m := by
  constructor
  · rintro ⟨group, hgroup, hm, hn⟩
    obtain ⟨k, -, rfl⟩ := exists_of_mem_cyclesThrough hgroup
    obtain ⟨hkm, hmk⟩ := mem_cycleOf.mp hm
    obtain ⟨hkn, hnk⟩ := mem_cycleOf.mp hn
    exact ⟨hmk.trans hkn, hnk.trans hkm⟩
  · rintro ⟨hmn, hnm⟩
    have hself : c.Above m m := hmn.trans hnm
    have hfinished : m ∈ c.finishOrder := mem_finishOrder (mem_names.mpr hmn.contains_left)
    rcases exists_cyclesThrough [] hfinished hself with hmem | ⟨group, hgroup, hmem⟩
    · exact absurd hmem List.not_mem_nil
    · obtain ⟨k, -, rfl⟩ := exists_of_mem_cyclesThrough hgroup
      obtain ⟨hkm, hmk⟩ := mem_cycleOf.mp hmem
      exact ⟨c.cycleOf k, hgroup, hmem, mem_cycleOf.mpr ⟨hkm.trans hmn, hnm.trans hmk⟩⟩

theorem cycleNotes_build (es : List Entry) :
    (build es).notes.filter (fun n => n.code = .inheritanceCycle) =
      (build es).value.cycles.map Note.inheritanceCycle := by
  rw [notes_build, ← List.append_nil (_ ++ _ ++ _)]
  refine filter_code_eq (fun n hn => ?_) (fun n hn => code_of_mem_cycleNotes hn) nofun
  rcases List.mem_append.mp hn with hn | hn
  · rw [code_of_mem_displacements hn]
    decide
  · rw [code_of_mem_missingSupertypes hn]
    decide

/-- **The cycles that are reported** are pairwise disjoint groups of names in increasing order; a
declared name is in one of them exactly if it lies above itself, and two names are in the same one
exactly if each lies above the other. -/
theorem cycles_exact (es : List Entry) :
    let c := (build es).value
    (build es).notes.filter (fun n => n.code = .inheritanceCycle) =
        c.cycles.map Note.inheritanceCycle ∧
      c.cycles.Pairwise List.Disjoint ∧
      (∀ group ∈ c.cycles, group ≠ [] ∧ group.Pairwise (· < ·)) ∧
      (∀ n, (∃ group ∈ c.cycles, n ∈ group) ↔ n ∈ c.names ∧ c.Above n n) ∧
      ∀ m n, (∃ group ∈ c.cycles, m ∈ group ∧ n ∈ group) ↔ c.Above m n ∧ c.Above n m := by
  intro c
  have hnotes := cycleNotes_build es
  have hdisjoint : c.cycles.Pairwise List.Disjoint := (disjoint_cyclesThrough whole_nil).2
  refine ⟨hnotes, hdisjoint, fun group hgroup => ?_, fun n => ?_, fun m n => mem_cycles_iff⟩
  · obtain ⟨n, hself, rfl⟩ := exists_of_mem_cyclesThrough hgroup
    exact ⟨List.ne_nil_of_mem (mem_cycleOf.mpr ⟨hself, hself⟩), pairwise_cycleOf n⟩
  · have hsame : (∃ group ∈ c.cycles, n ∈ group) ↔ c.Above n n := by
      have := mem_cycles_iff (c := c) (m := n) (n := n)
      simpa only [and_self] using this
    rw [hsame]
    exact ⟨fun h => ⟨mem_names.mpr h.contains_left, h⟩, fun h => h.2⟩

end ApiSurface.Catalog
