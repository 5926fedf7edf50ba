import ApiSurface.Number.Basic

/-!
# JSON trees

* `Json`: values whose objects keep their members in order, repeated names included;
* `Json.fit`: nothing in the value is unfit, so that it can be kept;
* `Json.lastWins`: of members with one name, only the last is left.
-/

namespace ApiSurface

/-- A JSON value. Text that is well formed but stands for no value that can be kept (a number beyond
the range, half a surrogate pair, a container nested too deep) is `unfit`. -/
inductive Json
  | null
  | bool (value : Bool)
  | number (value : Number)
  | text (value : String)
  | list (items : List Json)
  | object (members : List (String × Json))
  | unfit
deriving Repr, Inhabited

namespace Json

mutual

/-- Nothing in the value is unfit. -/
def fit : Json → Bool
  | unfit => false
  | list items => fitItems items
  | object members => fitMembers members
  | _ => true

/-- No item holds anything unfit. -/
def fitItems : List Json → Bool
  | [] => true
  | v :: vs => v.fit && fitItems vs

/-- No member holds anything unfit. -/
def fitMembers : List (String × Json) → Bool
  | [] => true
  | (_, v) :: ms => v.fit && fitMembers ms

end

/-- Of members with one name, only the last is left. -/
def lastOf {α : Type} : List (String × α) → List (String × α)
  | [] => []
  | (k, v) :: ms => if ms.any (·.1 = k) then lastOf ms else (k, v) :: lastOf ms

mutual

/-- Of members with one name, only the last is left, at every level. -/
def lastWins : Json → Json
  | list items => list (lastWinsItems items)
  | object members => object (lastOf (lastWinsMembers members))
  | v => v

/-- The items, each with its last members only. -/
def lastWinsItems : List Json → List Json
  | [] => []
  | v :: vs => v.lastWins :: lastWinsItems vs

/-- The members, each with its last members only. -/
def lastWinsMembers : List (String × Json) → List (String × Json)
  | [] => []
  | (k, v) :: ms => (k, v.lastWins) :: lastWinsMembers ms

end

/-- The value of the first member of a name. -/
def member? (name : String) : Json → Option Json
  | object members => members.lookup name
  | _ => none

end Json

end ApiSurface
