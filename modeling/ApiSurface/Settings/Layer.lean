import ApiSurface.Failure
import ApiSurface.Settings.Numeral

/-!
# Layers of settings

Settings come from several places; what a later one says counts.

* `Step`, `steps?`: a key as a path, such as `tasks.name` or `tasks[0]`;
* `Value.put`: a value under a name, tables joined key by key;
* `overlay`: the entries of one place over those of the ones before it;
* `ofEnvironment`: the entries that environment variables stand for.

Keys are lower-cased on the way, those inside lists and at an item of a list excepted.
-/

namespace ApiSurface.Layer

/-! ## Names -/

/-- The sign for a kelvin has a plain letter as its lower case. -/
def lowerChar (c : Char) : Char := if c = '\u212a' then 'k' else c.toLower

/-- A name in lower case. Of the names of settings no other letter is the lower case of one that is
not an ASCII letter. -/
def lower (s : String) : String := s.map lowerChar

/-! ## Paths -/

/-- A step of a path: to a member of a table or to an item of a list; items count from the end
behind a minus. -/
inductive Step
  | member (name : String)
  | item (fromEnd : Bool) (index : Nat)
deriving DecidableEq, Repr

/-- Characters of a name in a path. -/
def isNameChar (c : Char) : Bool := c.isAlphanum || c == '_' || c == '-' || c == ' '

/-- The text behind blanks. -/
def skipBlanks (cs : List Char) : List Char := cs.dropWhile fun c => c == ' ' || c == '\t'

/-- A name at the front of a text. -/
def nameStep (cs : List Char) : Option (Step × List Char) :=
  if (cs.takeWhile isNameChar).isEmpty then none
  else some (.member (String.ofList (cs.takeWhile isNameChar)), cs.dropWhile isNameChar)

/-- A minus at the front of a text. -/
def minus : List Char → Bool × List Char
  | '-' :: r => (true, r)
  | r => (false, r)

/-- An index behind its bracket; there is no item behind the last one, so zero always counts from
the start. -/
def itemStep (cs : List Char) : Option (Step × List Char) :=
  let (fromEnd, r) := minus (skipBlanks cs)
  let digits := r.takeWhile Char.isDigit
  let n := Number.ofDigits digits
  if digits.isEmpty ∨ Value.maxInteger + (if fromEnd then 1 else 0) < n then none
  else match skipBlanks (r.dropWhile Char.isDigit) with
    | ']' :: r => some (.item (fromEnd && n != 0) n, r)
    | _ => none

/-- The step behind another one. -/
def nextStep : List Char → Option (Step × List Char)
  | '.' :: r => nameStep r
  | '[' :: r => itemStep r
  | _ => none

/-- The steps behind the first one; the fuel bounds their number. -/
def moreSteps : (fuel : Nat) → List Char → Option (List Step)
  | 0, _ => none
  | _ + 1, [] => some []
  | fuel + 1, cs => do
    let (s, r) ← nextStep cs
    return s :: (← moreSteps fuel r)

/-- The steps that a key stands for, if it reads as a path. -/
def steps? (key : String) : Option (List Step) := do
  let (s, r) ← nameStep key.toList
  return s :: (← moreSteps (r.length + 1) r)

/-- The steps of a key in lower case; one that is no path is a name. -/
def stepsOf (key : String) : List Step := (steps? (lower key)).getD [.member (lower key)]

/-! ## Merging -/

/-- The entries of a table; of anything else none. -/
def entriesOf : Value → List (String × Value)
  | .table es => es
  | _ => []

/-- The items of a list; of anything else none. -/
def itemsOf : Value → List Value
  | .list vs => vs
  | _ => []

/-- A value under a name, in the place of the one that has the name. -/
def store (k : String) (v : Value) (es : List (String × Value)) : List (String × Value) :=
  if (es.lookup k).isSome then es.map fun e => if e.1 = k then (k, v) else e else es ++ [(k, v)]

mutual

/-- The value under a name over the one that is there: tables are joined, anything else is
replaced. -/
def join (v : Value) (old : Option Value) : Value :=
  match v with
  | .table es => joinAll es (old.getD (.table []))
  | _ => v

/-- The entries of a table over a value; what is not a table gives way to them. Of entries whose
keys differ in case alone the first has the last word. -/
def joinAll : List (String × Value) → Value → Value
  | [], here => here
  | (k, v) :: es, here =>
    let later := entriesOf (joinAll es here)
    .table (store (lower k) (join v (later.lookup (lower k))) later)

end

/-- A value under a name in a table; what is not a table gives way. -/
def put (k : String) (v : Value) (here : Value) : Value := joinAll [(k, v)] here

/-- No list has as many items. -/
def maxItems : Nat := Nat.pow 2 24

/-- The position of an item, if a list can have it; there is none before the first. -/
def position? (fromEnd : Bool) (index count : Nat) : Option Nat :=
  if fromEnd then
    if index ≤ count then some (count - index) else none
  else if index < maxItems then some index else none

/-- An item in the place of another one; missing items before it hold nothing. -/
def storeItem (i : Nat) (v : Value) (vs : List Value) : List Value :=
  (vs ++ List.replicate (i + 1 - vs.length) Value.nothing).set i v

/-- A value at the end of a path, unless an item on it cannot be. What is in the way gives way. -/
def place? (v : Value) : List Step → Value → Option Value
  | [], here => some here
  | [.member k], here => some (put k v here)
  | .member k :: path, here => do
    let inner ← place? v path (((entriesOf here).lookup k).getD .nothing)
    return .table (store k inner (entriesOf here))
  | .item fromEnd i :: path, here => do
    let vs := itemsOf here
    let n ← position? fromEnd i vs.length
    let inner ← if path.isEmpty then some v else place? v path (vs[n]?.getD .nothing)
    return .list (storeItem n inner vs)

/-- One more entry over others. -/
def overlayEntry (here : Value) (e : String × Value) : Except Failure Value :=
  match place? e.2 (stepsOf e.1) here with
  | some v => .ok v
  | none => .error (.noItem e.1)

/-- The entries of one place over those of the places before it, in their order. -/
def overlay (base layer : List (String × Value)) : Except Failure (List (String × Value)) :=
  (layer.foldlM overlayEntry (.table base)).map entriesOf

/-! ## Environment variables -/

/-- What the names of variables start with. -/
def variableStart : String := "apigen__"

/-- Two low lines separate the levels of a name. -/
def levels : List Char → List Char
  | '_' :: '_' :: r => '.' :: levels r
  | c :: r => c :: levels r
  | [] => []

/-- The value that a text stands for: a truth value, an integer, a double or the text itself. -/
def valueOf (s : String) : Value :=
  if lower s = "true" then .bool true
  else if lower s = "false" then .bool false
  else match Numeral.integer? s.toList, Numeral.real? s.toList with
    | some n, _ => .integer n
    | none, some r => .real r
    | none, none => .text s

/-- The entry of a variable, if its name is one of settings. -/
def ofVariable? (e : String × String) : Option (String × Value) :=
  let name := (lower e.1).toList
  if variableStart.toList.isPrefixOf name then
    some (String.ofList (levels (name.drop variableStart.length)), valueOf e.2)
  else none

/-- The entries that environment variables stand for. -/
def ofEnvironment (environment : List (String × String)) : List (String × Value) :=
  environment.filterMap ofVariable?

end ApiSurface.Layer
