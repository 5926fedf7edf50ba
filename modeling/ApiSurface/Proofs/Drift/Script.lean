import ApiSurface.Drift.Script
import Mathlib.Data.List.Basic

/-!
# Edit scripts lead from the old lines to the new ones

* `Turns`: a script starts from some lines and ends with others;
* `turns_conquer`: a script that is found by cutting lists in two turns one into the other;
* `Alike`: scripts that turn the same lines into the same lines;
* `alike_shiftUp`, `alike_shiftDown`, `alike_compacted`: moving changes keeps what a script does;
* **`turns_compacted_conquer`**: so does the script of a report.
-/

namespace ApiSurface.Drift

/-- A script starts from the old lines and ends with the new ones. -/
structure Turns (ops : List Op) (old new : List String) : Prop where
  old_eq : oldLines ops = old
  new_eq : newLines ops = new

@[simp] theorem oldLines_nil : oldLines [] = [] := rfl

@[simp] theorem newLines_nil : newLines [] = [] := rfl

@[simp] theorem oldLines_cons (op : Op) (ops : List Op) :
    oldLines (op :: ops) = op.old ++ oldLines ops := rfl

@[simp] theorem newLines_cons (op : Op) (ops : List Op) :
    newLines (op :: ops) = op.new ++ newLines ops := rfl

@[simp] theorem oldLines_append (ops ops' : List Op) :
    oldLines (ops ++ ops') = oldLines ops ++ oldLines ops' := List.flatMap_append

@[simp] theorem newLines_append (ops ops' : List Op) :
    newLines (ops ++ ops') = newLines ops ++ newLines ops' := List.flatMap_append

/-! ## Cutting lists in two -/

section Conquer

variable {ops ops' : List Op} {old old' new new' : List String}

theorem Turns.append (h : Turns ops old new) (h' : Turns ops' old' new') :
    Turns (ops ++ ops') (old ++ old') (new ++ new') where
  old_eq := by rw [oldLines_append, h.old_eq, h'.old_eq]
  new_eq := by rw [newLines_append, h.new_eq, h'.new_eq]

theorem turns_run (op : List String → Op) (ls : List String) (hold : (op []).old = [])
    (hnew : (op []).new = []) : Turns (run op ls) (op ls).old (op ls).new := by
  cases ls with
  | nil => exact ⟨hold.symm, hnew.symm⟩
  | cons l ls => exact ⟨List.append_nil _, List.append_nil _⟩

theorem turns_keep (ls : List String) : Turns (run .keep ls) ls ls := turns_run .keep ls rfl rfl

/-- Everything old is removed, and everything new is added. -/
theorem turns_replace (old new : List String) :
    Turns (run .remove old ++ run .add new) old new := by
  have h := (turns_run .remove old rfl rfl).append (turns_run .add new rfl rfl)
  rwa [Op.old, Op.new, Op.old, Op.new, List.append_nil, List.nil_append] at h

theorem take_commonPrefix (old new : List String) :
    old.take (commonPrefix old new) = new.take (commonPrefix old new) := by
  induction old generalizing new with
  | nil => simp [commonPrefix]
  | cons a old ih =>
    cases new with
    | nil => simp [commonPrefix]
    | cons b new =>
      rw [commonPrefix]
      split_ifs with h
      · rw [List.take_succ_cons, List.take_succ_cons, ih, h]
      · rfl

/-- What two lists share at their ends, counted from behind. -/
theorem drop_commonPrefix_reverse (old new : List String) :
    let m := commonPrefix old.reverse new.reverse
    old.drop (old.length - m) = new.drop (new.length - m) := by
  intro m
  have h := congrArg List.reverse (take_commonPrefix old.reverse new.reverse)
  rwa [List.take_reverse, List.take_reverse, List.reverse_reverse, List.reverse_reverse] at h

/-- What is kept in front and behind stands around what happens in between. -/
theorem Turns.between {n k l : Nat} (hfront : old.take n = new.take n)
    (hback : (old.drop n).drop k = (new.drop n).drop l)
    (h : Turns ops ((old.drop n).take k) ((new.drop n).take l)) :
    Turns (run .keep (old.take n) ++ ops ++ run .keep ((old.drop n).drop k)) old new := by
  have hall := ((turns_keep (old.take n)).append h).append (turns_keep ((old.drop n).drop k))
  have hold : old.take n ++ (old.drop n).take k ++ (old.drop n).drop k = old := by
    rw [List.append_assoc, List.take_append_drop, List.take_append_drop]
  have hnew : old.take n ++ (new.drop n).take l ++ (old.drop n).drop k = new := by
    rw [hfront, hback, List.append_assoc, List.take_append_drop, List.take_append_drop]
  rwa [hold, hnew] at hall

/-- **Cutting lists in two, however often and wherever, turns one into the other.** -/
theorem turns_conquer (fuel : Nat) (old new : List String) :
    Turns (conquer fuel old new) old new := by
  induction fuel generalizing old new with
  | zero => exact turns_replace old new
  | succ fuel ih =>
    rw [conquer]
    refine .between (take_commonPrefix old new) (drop_commonPrefix_reverse _ _) ?_
    generalize List.take _ (List.drop _ old) = a, List.take _ (List.drop _ new) = b
    split_ifs
    · exact turns_replace a b
    · split
      · exact turns_replace a b
      · next x y _ =>
        have h := (ih (a.take x) (b.take y)).append (ih (a.drop x) (b.drop y))
        rwa [List.take_append_drop, List.take_append_drop] at h

end Conquer

/-! ## Moving changes -/

/-- Scripts that start from the same lines and end with the same lines. -/
def Alike (ops ops' : List Op) : Prop :=
  oldLines ops = oldLines ops' ∧ newLines ops = newLines ops'

theorem Alike.trans {ops ops' ops'' : List Op} (h : Alike ops ops') (h' : Alike ops' ops'') :
    Alike ops ops'' :=
  ⟨h.1.trans h'.1, h.2.trans h'.2⟩

theorem Alike.turns {ops ops' : List Op} {old new : List String} (h : Alike ops ops')
    (hturns : Turns ops' old new) : Turns ops old new :=
  ⟨h.1.trans hturns.old_eq, h.2.trans hturns.new_eq⟩

/-- The script around a place. -/
def Place.ops (p : Place) : List Op := p.before.reverse ++ p.change :: p.after

@[simp] theorem oldLines_keepBefore (ls : List String) (ops : List Op) :
    oldLines (keepBefore ls ops) = ls ++ oldLines ops := by
  unfold keepBefore
  split_ifs with h
  · rw [List.isEmpty_iff.mp h, List.nil_append]
  · split <;> simp [Op.old]

@[simp] theorem newLines_keepBefore (ls : List String) (ops : List Op) :
    newLines (keepBefore ls ops) = ls ++ newLines ops := by
  unfold keepBefore
  split_ifs with h
  · rw [List.isEmpty_iff.mp h, List.nil_append]
  · split <;> simp [Op.new]

@[simp] theorem oldLines_keepAfter (ls : List String) (ops : List Op) :
    oldLines (keepAfter ls ops).reverse = oldLines ops.reverse ++ ls := by
  unfold keepAfter
  split_ifs with h
  · rw [List.isEmpty_iff.mp h, List.append_nil]
  · split <;> simp [Op.old]

@[simp] theorem newLines_keepAfter (ls : List String) (ops : List Op) :
    newLines (keepAfter ls ops).reverse = newLines ops.reverse ++ ls := by
  unfold keepAfter
  split_ifs with h
  · rw [List.isEmpty_iff.mp h, List.append_nil]
  · split <;> simp [Op.new]

/-- Added lines that slide up stay between the same lines, old and new. -/
theorem slideUp_eq (above added below : List String) :
    let s := slideUp above added below
    s.1.reverse ++ s.2.2 = above.reverse ++ below ∧
      s.1.reverse ++ s.2.1 ++ s.2.2 = above.reverse ++ added ++ below := by
  fun_induction slideUp above added below with
  | case1 added below => exact ⟨rfl, rfl⟩
  | case2 added below x above hlast ih =>
    obtain ⟨front, rfl⟩ := List.getLast?_eq_some_iff.mp hlast
    simpa using ih
  | case3 => exact ⟨rfl, rfl⟩

/-- Likewise for those that slide down. -/
theorem slideDown_eq (below added above : List String) :
    let s := slideDown below added above
    s.2.2 ++ s.1 = above ++ below ∧ s.2.2 ++ s.2.1 ++ s.1 = above ++ added ++ below := by
  fun_induction slideDown below added above with
  | case1 added above => exact ⟨rfl, rfl⟩
  | case2 added above x below hfirst ih =>
    obtain ⟨rest, rfl⟩ := List.head?_eq_some_iff.mp hfirst
    simpa using ih
  | case3 => exact ⟨rfl, rfl⟩

section Shift

variable {before after : List Op} {ks ls above ls' below : List String}

theorem alike_slideUp (h : slideUp ks.reverse ls [] = (above, ls', below)) :
    Alike (before.reverse ++ .keep above.reverse :: .add ls' :: keepBefore below after)
      (before.reverse ++ .keep ks :: .add ls :: after) := by
  obtain ⟨hold, hnew⟩ := slideUp_eq ks.reverse ls []
  rw [h, List.reverse_reverse, List.append_nil] at hold hnew
  constructor
  · simp [Op.old, ← hold]
  · have hall := congrArg (· ++ newLines after) hnew
    simpa [Op.new] using hall

theorem alike_slideDown (h : slideDown ks ls [] = (below, ls', above)) :
    Alike ((keepAfter above before).reverse ++ .add ls' :: .keep below :: after)
      (before.reverse ++ .add ls :: .keep ks :: after) := by
  obtain ⟨hold, hnew⟩ := slideDown_eq ks ls []
  rw [h, List.nil_append] at hold hnew
  constructor
  · simp [Op.old, ← hold]
  · have hall := congrArg (· ++ newLines after) hnew
    simpa [Op.new] using hall

end Shift

/-- **Moving a change up** keeps what a script does. -/
theorem alike_shiftUp (before : List Op) (change : Op) (after : List Op) :
    Alike (shiftUp before change after).ops (before.reverse ++ change :: after) := by
  fun_induction shiftUp before change after with
  | case1 => exact ⟨rfl, rfl⟩
  | case2 before change after ih => exact ih.trans (by simp [Alike, Op.old, Op.new])
  | case3 ks before ls after _ above ls' below hslide hempty ih =>
    have h := @alike_slideUp before after _ _ _ _ _ hslide
    rw [List.isEmpty_iff.mp hempty] at h
    exact ih.trans (by simpa [Alike, Op.old, Op.new] using h)
  | case4 ks before ls after _ above ls' below hslide =>
    simpa [Place.ops] using alike_slideUp hslide
  -- changes that stand next to each other only swap or merge
  | case5 ms before ls after ih | case6 ms before ls after ih | case7 ms before ls after ih
  | case8 ms before ls after ih => exact ih.trans (by simp [Alike, Op.old, Op.new])
  | case9 => exact ⟨rfl, rfl⟩

/-- **Moving a change down** keeps what a script does. -/
theorem alike_shiftDown (before : List Op) (change : Op) (after : List Op) :
    Alike (shiftDown before change after).ops (before.reverse ++ change :: after) := by
  fun_induction shiftDown before change after with
  | case1 => exact ⟨rfl, rfl⟩
  | case2 before change after ih => exact ih.trans (by simp [Alike, Op.old, Op.new])
  | case3 before ls ks after _ below ls' above hslide hempty ih =>
    have h := @alike_slideDown before after _ _ _ _ _ hslide
    rw [List.isEmpty_iff.mp hempty] at h
    exact ih.trans (by simpa [Alike, Op.old, Op.new] using h)
  | case4 before ls ks after _ below ls' above hslide => exact alike_slideDown hslide
  | case5 before ls ms after ih | case6 before ls ms after ih | case7 before ls ms after ih
  | case8 before ls ms after ih => exact ih.trans (by simp [Alike, Op.old, Op.new])
  | case9 => exact ⟨rfl, rfl⟩

/-- Moving some of the changes keeps what a script does. -/
theorem alike_settle (selected : Op → Bool) (fuel : Nat) (before after : List Op) :
    Alike (settle selected fuel before after) (before.reverse ++ after) := by
  fun_induction settle selected fuel before after with
  | case1 => exact ⟨rfl, rfl⟩
  | case2 => simp [Alike]
  | case3 fuel before op after _ up down ih =>
    have hup : Alike up.ops (before.reverse ++ op :: after) := alike_shiftUp before op after
    have hdown : Alike down.ops up.ops := alike_shiftDown up.before up.change up.after
    refine ih.trans (Alike.trans ?_ (hdown.trans hup))
    simp [Alike, Place.ops]
  | case4 fuel before op after _ ih => simpa using ih

theorem alike_compacted (ops : List Op) : Alike (compacted ops) ops :=
  (alike_settle isAddition _ [] _).trans (alike_settle isRemoval _ [] ops)

/-- **The runs of a report turn the old lines into the new ones.** -/
theorem turns_compacted (fuel : Nat) (old new : List String) :
    Turns (compacted (conquer fuel old new)) old new :=
  (alike_compacted _).turns (turns_conquer fuel old new)

/-! ## Nothing to change -/

theorem commonPrefix_self (ls : List String) : commonPrefix ls ls = ls.length := by
  induction ls with
  | nil => rfl
  | cons l ls ih => rw [commonPrefix, if_pos rfl, ih, List.length_cons]

/-- Equal lists are kept. -/
theorem conquer_self (fuel : Nat) (ls : List String) : conquer (fuel + 1) ls ls = run .keep ls := by
  rw [conquer, commonPrefix_self, List.drop_length, List.take_length]
  simp [run]

theorem compacted_run_keep (ls : List String) : compacted (run .keep ls) = run .keep ls := by
  cases ls with
  | nil => rfl
  | cons l ls => rfl

end ApiSurface.Drift
