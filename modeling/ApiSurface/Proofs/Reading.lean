import Mathlib.Data.List.Basic

/-!
# Reading lists item by item

A list is read when each of its items is: `List.mapM` in `Option`.

* `exists_of_mem_mapM`: what is read comes from an item;
* `exists_of_mapM`, `mapM_eq_some_map`: each item is read, and what the list is read as;
* `mapM_map_eq_some_iff`: a list that was written item by item is read as itself.
-/

namespace ApiSurface

variable {α β : Type}

theorem exists_of_mem_mapM {f : α → Option β} {l : List α} {ys : List β}
    (h : l.mapM f = some ys) {y : β} (hy : y ∈ ys) : ∃ x ∈ l, f x = some y := by
  induction l generalizing ys with
  | nil =>
    cases h
    exact absurd hy List.not_mem_nil
  | cons x l ih =>
    rw [List.mapM_cons] at h
    obtain ⟨z, hz, h⟩ := Option.bind_eq_some_iff.mp h
    obtain ⟨zs, hzs, h⟩ := Option.bind_eq_some_iff.mp h
    cases h
    rcases List.mem_cons.mp hy with rfl | hy
    · exact ⟨x, List.mem_cons_self, hz⟩
    · obtain ⟨w, hw, hwy⟩ := ih hzs hy
      exact ⟨w, List.mem_cons_of_mem _ hw, hwy⟩

theorem exists_of_mapM {f : α → Option β} {l : List α} {ys : List β} (h : l.mapM f = some ys) {x : α}
    (hx : x ∈ l) : ∃ y, f x = some y := by
  induction l generalizing ys with
  | nil => exact absurd hx List.not_mem_nil
  | cons w l ih =>
    rw [List.mapM_cons] at h
    obtain ⟨z, hz, h⟩ := Option.bind_eq_some_iff.mp h
    obtain ⟨zs, hzs, -⟩ := Option.bind_eq_some_iff.mp h
    rcases List.mem_cons.mp hx with rfl | hx
    · exact ⟨z, hz⟩
    · exact ih hzs hx

theorem mapM_eq_some_map {f : α → Option β} {g : α → β} {l : List α}
    (h : ∀ x ∈ l, f x = some (g x)) : l.mapM f = some (l.map g) := by
  induction l with
  | nil => rfl
  | cons x l ih =>
    obtain ⟨hx, hl⟩ := List.forall_mem_cons.mp h
    rw [List.mapM_cons, hx, ih hl]
    rfl

theorem mapM_map_eq_some_iff {read : β → Option α} {write : α → β} {as : List α} :
    (as.map write).mapM read = some as ↔ ∀ a ∈ as, read (write a) = some a := by
  induction as with
  | nil => simp
  | cons a as ih =>
    rw [List.map_cons, List.mapM_cons, List.forall_mem_cons, ← ih]
    cases read (write a) with
    | none => simp
    | some b => cases (as.map write).mapM read <;> simp

theorem map_eq_of_mapM {γ : Type} {f : α → Option β} (p : β → γ) (q : α → γ)
    (hf : ∀ x y, f x = some y → p y = q x) {l : List α} {ys : List β} (h : l.mapM f = some ys) :
    ys.map p = l.map q := by
  induction l generalizing ys with
  | nil =>
    cases h
    rfl
  | cons x l ih =>
    rw [List.mapM_cons] at h
    obtain ⟨z, hz, h⟩ := Option.bind_eq_some_iff.mp h
    obtain ⟨zs, hzs, h⟩ := Option.bind_eq_some_iff.mp h
    cases h
    rw [List.map_cons, List.map_cons, hf x z hz, ih hzs]

end ApiSurface
