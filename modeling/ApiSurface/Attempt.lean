import ApiSurface.Failure
import ApiSurface.Note

/-!
# Attempts

Steps that take notes and may fail. What was noted before a failure is kept.

* `Attempt`: a result or a failure, with the notes taken so far;
* `Attempt.fail`, `Attempt.note`: end with a failure, take a note;
* `Attempt.ofNoted`: steps that cannot fail.
-/

namespace ApiSurface

/-- A result or a failure, and the notes taken before it. -/
structure Attempt (α : Type) where
  result : Except Failure α
  notes : List Note

namespace Attempt

variable {α β : Type}

/-- A result without notes. -/
def pure (a : α) : Attempt α := ⟨.ok a, []⟩

/-- Go on with a result; a failure ends the steps. -/
def bind (m : Attempt α) (f : α → Attempt β) : Attempt β :=
  match m.result with
  | .error e => ⟨.error e, m.notes⟩
  | .ok a => ⟨(f a).result, m.notes ++ (f a).notes⟩

instance : Monad Attempt where
  pure := Attempt.pure
  bind := Attempt.bind

/-- End with a failure. -/
def fail (e : Failure) : Attempt α := ⟨.error e, []⟩

/-- Take some notes. -/
def noteAll (ns : List Note) : Attempt PUnit := ⟨.ok ⟨⟩, ns⟩

/-- A result or a failure without notes. -/
def ofExcept (r : Except Failure α) : Attempt α := ⟨r, []⟩

/-- Steps that cannot fail. -/
def ofNoted (m : Noted α) : Attempt α := ⟨.ok m.value, m.notes⟩

@[simp] theorem result_pure (a : α) : (Pure.pure a : Attempt α).result = .ok a := rfl

@[simp] theorem notes_pure (a : α) : (Pure.pure a : Attempt α).notes = [] := rfl

theorem bind_of_ok {m : Attempt α} {a : α} (h : m.result = .ok a) (f : α → Attempt β) :
    m >>= f = ⟨(f a).result, m.notes ++ (f a).notes⟩ := by
  show Attempt.bind m f = _
  simp [Attempt.bind, h]

theorem bind_of_error {m : Attempt α} {e : Failure} (h : m.result = .error e)
    (f : α → Attempt β) : m >>= f = ⟨.error e, m.notes⟩ := by
  show Attempt.bind m f = _
  simp [Attempt.bind, h]

/-- A result of two steps is one of the second, from a result of the first. -/
theorem exists_of_bind_ok {m : Attempt α} {f : α → Attempt β} {b : β}
    (h : (m >>= f).result = .ok b) : ∃ a, m.result = .ok a ∧ (f a).result = .ok b := by
  cases hm : m.result with
  | error e =>
    rw [bind_of_error hm] at h
    cases h
  | ok a =>
    rw [bind_of_ok hm] at h
    exact ⟨a, rfl, h⟩

end Attempt

end ApiSurface
