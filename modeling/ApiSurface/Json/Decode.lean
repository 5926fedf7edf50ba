import ApiSurface.Json.Basic

/-!
# Reading records out of JSON

A record is an object with its fields by name, or a list of its first fields in their order.

* `slots`: the values of a record's fields, if none is given twice;
* `required`, `defaulted`, `nullable`: what a missing field means;
* `bool?`, `text?`, `natural?`, `listOf?`: the leaves;
* `choiceName?`: the name of one of several cases without contents.
-/

namespace ApiSurface.Json

/-- How often a name occurs among members. -/
def occurrences (name : String) (ms : List (String × Json)) : Nat :=
  (ms.filter fun m => m.1 = name).length

/-- None of the names occurs twice. -/
def once (names : List String) (ms : List (String × Json)) : Bool :=
  names.all fun n => occurrences n ms ≤ 1

@[simp] theorem occurrences_nil (name : String) : occurrences name [] = 0 := rfl

@[simp] theorem occurrences_cons (name k : String) (v : Json) (ms : List (String × Json)) :
    occurrences name ((k, v) :: ms) = (if k = name then 1 else 0) + occurrences name ms := by
  unfold occurrences
  by_cases h : k = name
  · simp [h, Nat.add_comm]
  · simp [h]

@[simp] theorem once_nil (ms : List (String × Json)) : once [] ms = true := rfl

@[simp] theorem once_cons (n : String) (names : List String) (ms : List (String × Json)) :
    once (n :: names) ms = (decide (occurrences n ms ≤ 1) && once names ms) := rfl

/-- The values of a record's fields, in the order of their names. -/
def slots (names : List String) : Json → Option (List (Option Json))
  | object ms => if once names ms then some (names.map fun n => ms.lookup n) else none
  | list vs =>
    if vs.length ≤ names.length then
      some (vs.map some ++ List.replicate (names.length - vs.length) none)
    else none
  | _ => none

/-! ## Fields -/

/-- A field that must be given. -/
def required {α : Type} (read : Json → Option α) (slot : Option Json) : Option α := slot.bind read

/-- A field with a value of its own when it is not given. -/
def defaulted {α : Type} (read : Json → Option α) (value : α) : Option Json → Option α
  | none => some value
  | some v => read v

/-- A field that may be missing or null. -/
def nullable {α : Type} (read : Json → Option α) : Option Json → Option (Option α)
  | none => some none
  | some null => some none
  | some v => (read v).map some

section Fields

variable {α : Type} (read : Json → Option α) (a : α) (v : Json)

@[simp] theorem required_some : required read (some v) = read v := rfl

@[simp] theorem defaulted_none : defaulted read a none = some a := rfl

@[simp] theorem defaulted_some : defaulted read a (some v) = read v := rfl

@[simp] theorem nullable_none : nullable read none = some none := rfl

@[simp] theorem nullable_null : nullable read (some null) = some none := rfl

@[simp] theorem nullable_text (s : String) :
    nullable read (some (text s)) = (read (text s)).map some := rfl

@[simp] theorem nullable_object (ms : List (String × Json)) :
    nullable read (some (object ms)) = (read (object ms)).map some := rfl

end Fields

/-! ## Leaves -/

/-- A truth value. -/
def bool? : Json → Option Bool
  | bool b => some b
  | _ => none

/-- A text. -/
def text? : Json → Option String
  | text s => some s
  | _ => none

/-- A natural number of 64 bits. -/
def natural? : Json → Option Nat
  | number (.natural n) => some n
  | _ => none

/-- A list, each item read alike. -/
def listOf? {α : Type} (read : Json → Option α) : Json → Option (List α)
  | list vs => vs.mapM read
  | _ => none

@[simp] theorem bool?_bool (b : Bool) : bool? (bool b) = some b := rfl

@[simp] theorem text?_text (s : String) : text? (text s) = some s := rfl

@[simp] theorem listOf?_list {α : Type} (read : Json → Option α) (vs : List Json) :
    listOf? read (list vs) = vs.mapM read := rfl

/-- Nothing at all: null, and an empty object where the value is held in memory. -/
def isNothing (held : Bool) : Json → Bool
  | null => true
  | object [] => held
  | _ => false

/-- The name of a case without contents, alone or as the only member of an object. -/
def choiceName? (held : Bool) : Json → Option String
  | text s => some s
  | object [(k, v)] => if isNothing held v then some k else none
  | _ => none

/-- A tag out of a list: its name or, where the value is held in memory, its position. -/
def tag? (held : Bool) (tags : List String) : Json → Option String
  | text s => if s ∈ tags then some s else none
  | number (.natural n) => if held then tags[n]? else none
  | _ => none

/-! ## Members that are written only when there is something to say -/

/-- A member for a value that is there. -/
def memberIf (name : String) (value : Option Json) : List (String × Json) :=
  match value with
  | none => []
  | some v => [(name, v)]

/-- A list of texts as a member, unless it is empty. -/
def textsIfAny (name : String) (values : List String) : List (String × Json) :=
  if values.isEmpty then [] else [(name, list (values.map text))]

/-- A text, or null. -/
def textOrNull : Option String → Json
  | none => null
  | some s => text s

end ApiSurface.Json
