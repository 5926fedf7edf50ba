import Mathlib.Data.List.Basic
import Mathlib.Data.List.Induction

/-!
# First occurrences

* `Firsts`: the members of a list, each once, in the order of their first occurrence;
* `Firsts.skip`, `Firsts.keep`: one more member, seen before or new;
* `eraseDups_append_singleton`, **`firsts_eraseDups`**: what is left when repetitions are dropped.
-/

namespace ApiSurface

variable {α : Type} [DecidableEq α] {kept done : List α} {a : α}

/-- The members of a list, each once, in the order of their first occurrence. -/
structure Firsts (kept done : List α) : Prop where
  mem_iff : ∀ a, a ∈ kept ↔ a ∈ done
  ordered : kept.Pairwise fun a b => done.idxOf a < done.idxOf b

theorem firsts_nil : Firsts ([] : List α) [] := ⟨fun _ => Iff.rfl, List.Pairwise.nil⟩

theorem Firsts.nodup (h : Firsts kept done) : kept.Nodup :=
  h.ordered.imp fun hlt he => by rw [he] at hlt; exact Nat.lt_irrefl _ hlt

theorem Firsts.ordered_append (h : Firsts kept done) (a : α) :
    kept.Pairwise fun b c => (done ++ [a]).idxOf b < (done ++ [a]).idxOf c :=
  h.ordered.imp_of_mem fun hb hc hlt => by
    rwa [List.idxOf_append_of_mem ((h.mem_iff _).mp hb),
      List.idxOf_append_of_mem ((h.mem_iff _).mp hc)]

/-- One more that is kept already. -/
theorem Firsts.skip (h : Firsts kept done) (ha : a ∈ kept) : Firsts kept (done ++ [a]) where
  mem_iff b := by
    rw [h.mem_iff b, List.mem_append, List.mem_singleton]
    refine ⟨Or.inl, fun hb => hb.elim id fun hba => ?_⟩
    rw [hba]
    exact (h.mem_iff a).mp ha
  ordered := h.ordered_append a

/-- One more that is new. -/
theorem Firsts.keep (h : Firsts kept done) (ha : a ∉ kept) : Firsts (kept ++ [a]) (done ++ [a]) where
  mem_iff b := by rw [List.mem_append, List.mem_append, h.mem_iff b]
  ordered := by
    refine List.pairwise_append.mpr
      ⟨h.ordered_append a, List.pairwise_singleton _ _, fun b hb c hc => ?_⟩
    have hdone : b ∈ done := (h.mem_iff b).mp hb
    have hnew : a ∉ done := fun hd => ha ((h.mem_iff a).mpr hd)
    rw [List.mem_singleton.mp hc, List.idxOf_append_of_mem hdone, List.idxOf_append_of_notMem hnew]
    exact Nat.lt_add_right _ (List.idxOf_lt_length_of_mem hdone)

/-- One more at the end is a first occurrence unless it stands before. -/
theorem eraseDups_append_singleton (as : List α) (a : α) :
    (as ++ [a]).eraseDups = if a ∈ as then as.eraseDups else as.eraseDups ++ [a] := by
  rw [List.eraseDups_append]
  by_cases h : a ∈ as
  · simp [h, List.removeAll]
  · simp [h, List.removeAll, List.eraseDups_cons]

/-- **Dropping repetitions keeps first occurrences.** -/
theorem firsts_eraseDups (as : List α) : Firsts as.eraseDups as := by
  induction as using List.reverseRecOn with
  | nil => exact firsts_nil
  | append_singleton as a ih =>
    rw [eraseDups_append_singleton]
    split_ifs with ha
    · exact ih.skip ((ih.mem_iff a).mpr ha)
    · exact ih.keep fun hkept => ha ((ih.mem_iff a).mp hkept)

end ApiSurface
