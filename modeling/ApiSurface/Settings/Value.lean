import ApiSurface.Json.Basic

/-!
# Values in configuration files

* `Real`, `Value`: what a file may hold;
* `Value.word?`: the text that a scalar stands for;
* `Value.toJson`, `Value.ofJson`: a value as JSON, and JSON as a value.
-/

namespace ApiSurface

/-- A double, finite or not. -/
inductive Real
  | finite (x : Binary64)
  | infinite (negative : Bool)
  | nan
deriving DecidableEq, Repr

/-- The text of a double where it stands for a word. -/
def Real.text : Real → String
  | finite x => x.plain
  | infinite negative => if negative then "-inf" else "inf"
  | nan => "NaN"

/-- A value in a configuration file. -/
inductive Value
  | nothing
  | bool (value : Bool)
  | integer (value : Int)
  | real (value : Real)
  | text (value : String)
  | list (items : List Value)
  | table (entries : List (String × Value))
deriving Repr, Inhabited

namespace Value

/-- A list of texts. -/
def texts (l : List String) : Value := list (l.map text)

/-- The text that a scalar stands for. -/
def word? : Value → Option String
  | text s => some s
  | bool b => some (if b then "true" else "false")
  | integer n => some (toString n)
  | real r => some r.text
  | _ => none

/-- An integer as JSON. -/
def integerJson (n : Int) : Json :=
  match n with
  | .ofNat n => .number (.natural n)
  | .negSucc n => .number (.negative (n + 1))

/-- A double as JSON; those that are not finite have no number of their own. -/
def realJson : Real → Json
  | .finite x => .number (.real x)
  | _ => .number (.real ⟨false, .zero⟩)

mutual

/-- A value as JSON. -/
def toJson : Value → Json
  | nothing => .null
  | bool b => .bool b
  | integer n => integerJson n
  | real r => realJson r
  | text s => .text s
  | list vs => .list (itemsToJson vs)
  | table es => .object (entriesToJson es)

/-- Values as JSON. -/
def itemsToJson : List Value → List Json
  | [] => []
  | v :: vs => v.toJson :: itemsToJson vs

/-- Entries as JSON. -/
def entriesToJson : List (String × Value) → List (String × Json)
  | [] => []
  | (k, v) :: es => (k, v.toJson) :: entriesToJson es

end

/-- The greatest integer a file may hold. -/
def maxInteger : Nat := Nat.pow 2 63 - 1

/-- A number as a value; naturals beyond the integers become doubles. -/
def ofNumber : Number → Value
  | .natural n =>
    if n ≤ maxInteger then integer n
    else match Magnitude.nearest n 1 with
      | some m => real (.finite ⟨false, m⟩)
      | none => nothing
  | .negative n => integer (-(n : Int))
  | .real x => real (.finite x)

mutual

/-- JSON as a value; of members with one name the last counts. -/
def ofJson : Json → Value
  | .null => nothing
  | .bool b => bool b
  | .number n => ofNumber n
  | .text s => text s
  | .list vs => list (itemsOfJson vs)
  | .object ms => table (Json.lastOf (entriesOfJson ms))
  | .unfit => nothing

/-- JSON as values. -/
def itemsOfJson : List Json → List Value
  | [] => []
  | v :: vs => ofJson v :: itemsOfJson vs

/-- JSON as entries. -/
def entriesOfJson : List (String × Json) → List (String × Value)
  | [] => []
  | (k, v) :: ms => (k, ofJson v) :: entriesOfJson ms

end

end Value

end ApiSurface
