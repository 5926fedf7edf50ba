import ApiSurface.Failure

/-!
# Actions on a disk

What a run asks of a disk is data, so that a disk that is a value can answer it as well as a real
one.

* `Call`, `Refusal`: what can be asked, and why the disk may refuse;
* `Action`: calls one after another, and a result or a failure at the end;
* `Action.attempt`: a failure as a result, so that the steps go on;
* `Action.run`: the result of an action, with whatever answers its calls.
-/

namespace ApiSurface

/-- Why a disk refuses a call. -/
inductive Refusal
  | missing
  | notDirectory
  | isDirectory
  | invalidName
  | other (text : String)
deriving DecidableEq, Repr

/-- The wording of a refusal. -/
def Refusal.message : Refusal → String
  | missing => "No such file or directory (os error 2)"
  | notDirectory => "Not a directory (os error 20)"
  | isDirectory => "Is a directory (os error 21)"
  | invalidName => "invalid file name"
  | other text => text

/-- A new file beside others, under a name of its own. -/
structure Temporary where
  directory : String
  name : String
deriving DecidableEq, Repr

/-- What a disk is asked for: the names of the directories above a place and its own, the names in a
directory with whether they are directories, the bytes of a file, a directory with all those above
it, a new file in a directory, the contents of such a file, that it takes the place of another file
at once, that it goes away, and bytes written into any file. -/
inductive Call
  | locate (path : String)
  | list (path : String)
  | read (path : String)
  | makeDirectories (path : String)
  | createIn (directory : String)
  | fill (file : Temporary) (contents : String)
  | move (file : Temporary) (path : String)
  | discard (file : Temporary)
  | overwrite (path : String) (contents : ByteArray)

/-- What is in a directory: a name, and whether it is one of a directory. -/
structure Listed where
  name : String
  isDirectory : Bool
deriving DecidableEq, Repr

/-- The answer to a call that is not refused. -/
def Call.Reply : Call → Type
  | locate _ => List String
  | list _ => List Listed
  | read _ => ByteArray
  | makeDirectories _ => Unit
  | createIn _ => Temporary
  | fill _ _ => Unit
  | move _ _ => Unit
  | discard _ => Unit
  | overwrite _ _ => Unit

/-- The answer to a call. -/
abbrev Call.Answer (c : Call) : Type := Except Refusal c.Reply

/-- Whether a call leaves every file as it is, whatever the answer. -/
def Call.isReading : Call → Bool
  | locate _ => true
  | list _ => true
  | read _ => true
  | _ => false

/-- Calls one after another, and a result or a failure at the end. -/
inductive Action (α : Type) : Type
  | done (result : Except Failure α)
  | call (c : Call) (next : c.Answer → Action α)

namespace Action

variable {α β : Type}

/-- A result without a call. -/
def pure (a : α) : Action α := done (.ok a)

/-- Go on with a result; a failure ends the steps. -/
def bind : Action α → (α → Action β) → Action β
  | done (.ok a), f => f a
  | done (.error e), _ => done (.error e)
  | call c next, f => call c fun r => (next r).bind f

instance : Monad Action where
  pure := Action.pure
  bind := Action.bind

/-- End with a failure. -/
def fail (e : Failure) : Action α := done (.error e)

/-- A result or a failure without a call. -/
def ofExcept (r : Except Failure α) : Action α := done r

/-- One call. -/
def ask (c : Call) : Action c.Answer := call c pure

/-- One call; its refusal is a failure. -/
def demand (c : Call) (refused : Refusal → Failure) : Action c.Reply :=
  call c fun r => done (r.mapError refused)

/-- A failure as a result. -/
def attempt : Action α → Action (Except Failure α)
  | done r => pure r
  | call c next => call c fun r => (next r).attempt

/-- One action for each item of a list. -/
def forAll (f : α → Action β) : List α → Action (List β)
  | [] => pure []
  | a :: as => (f a).bind fun b => (forAll f as).bind fun bs => pure (b :: bs)

/-! ## Running -/

/-- The result of an action when its calls are answered in turn, and what the answers leave. -/
def run {σ : Type} (answer : (c : Call) → σ → c.Answer × σ) : Action α → σ → Except Failure α × σ
  | done r, s => (r, s)
  | call c next, s => run answer (next (answer c s).1) (answer c s).2

section Laws

variable {σ : Type} (answer : (c : Call) → σ → c.Answer × σ)

@[simp] theorem run_done (r : Except Failure α) (s : σ) : (done r).run answer s = (r, s) := rfl

@[simp] theorem run_call (c : Call) (next : c.Answer → Action α) (s : σ) :
    (call c next).run answer s = (next (answer c s).1).run answer (answer c s).2 := rfl

theorem bind_of_ok {m : Action α} {s t : σ} {a : α} (h : m.run answer s = (.ok a, t))
    (f : α → Action β) : (m.bind f).run answer s = (f a).run answer t := by
  induction m generalizing s with
  | done r =>
    obtain ⟨rfl, rfl⟩ := Prod.mk.inj h
    rfl
  | call c next ih => exact ih _ h

theorem bind_of_error {m : Action α} {s t : σ} {e : Failure}
    (h : m.run answer s = (.error e, t)) (f : α → Action β) :
    (m.bind f).run answer s = (.error e, t) := by
  induction m generalizing s with
  | done r =>
    obtain ⟨rfl, rfl⟩ := Prod.mk.inj h
    rfl
  | call c next ih => exact ih _ h

theorem run_attempt (m : Action α) (s : σ) :
    m.attempt.run answer s = (.ok (m.run answer s).1, (m.run answer s).2) := by
  induction m generalizing s with
  | done r => rfl
  | call c next ih => exact ih _ _

end Laws

end Action

end ApiSurface
