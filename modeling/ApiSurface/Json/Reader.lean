import ApiSurface.Json.Basic
import ApiSurface.Text.CodePoint

/-!
# Reading JSON

A reader on characters: each function returns what it read and the rest of the text.

* `numeral`, `string`: the leaves; an inner `none` is a leaf that cannot be kept;
* `value`, `items`, `members`: values with at most `room` containers around them, others are unfit;
* `Json.read?`: the value of a whole text.
-/

namespace ApiSurface.Json

open ApiSurface.Text (hexDigits isHigh isLow ofPair)

/-- The blanks between tokens. -/
def isSpace (c : Char) : Bool := c == ' ' || c == '\n' || c == '\t' || c == '\r'

/-- The text from its first other character on. -/
def skip (cs : List Char) : List Char := cs.dropWhile isSpace

/-- The longest run of digits, and the rest. -/
def digitRun (cs : List Char) : List Char × List Char :=
  (cs.takeWhile Char.isDigit, cs.dropWhile Char.isDigit)

/-! ## Numbers -/

/-- The digits before the point: a zero alone, or digits that start with another. -/
def wholePart (cs : List Char) : Option (List Char × List Char) :=
  match digitRun cs with
  | ([], _) => none
  | ('0' :: _ :: _, _) => none
  | r => some r

/-- The digits after a point, if there is one. -/
def fractionPart : List Char → Option (Option (List Char) × List Char)
  | '.' :: cs =>
    match digitRun cs with
    | ([], _) => none
    | (ds, r) => some (some ds, r)
  | cs => some (none, cs)

/-- The sign in front of an exponent. -/
def exponentSign : List Char → Bool × List Char
  | '+' :: cs => (false, cs)
  | '-' :: cs => (true, cs)
  | cs => (false, cs)

/-- The exponent, if there is one. -/
def exponentPart : List Char → Option (Option Number.ExponentText × List Char)
  | c :: cs =>
    if c == 'e' || c == 'E' then
      let (negative, r) := exponentSign cs
      match digitRun r with
      | ([], _) => none
      | (ds, r) => some (some ⟨negative, ds⟩, r)
    else some (none, c :: cs)
  | [] => some (none, [])

/-- A number without its sign. -/
def unsigned (negative : Bool) (cs : List Char) : Option (Option Number × List Char) := do
  let (whole, r) ← wholePart cs
  let (part, r) ← fractionPart r
  let (exponent, r) ← exponentPart r
  return (Number.ofParts negative whole part exponent, r)

/-- A number. -/
def numeral : List Char → Option (Option Number × List Char)
  | '-' :: cs => unsigned true cs
  | cs => unsigned false cs

/-! ## Texts -/

/-- The character of a one-letter escape. -/
def simpleEscape? (c : Char) : Option Char :=
  match c with
  | '"' => some '"'
  | '\\' => some '\\'
  | '/' => some '/'
  | 'b' => some '\x08'
  | 'f' => some '\x0c'
  | 'n' => some '\n'
  | 'r' => some '\r'
  | 't' => some '\t'
  | _ => none

/-- The second half of a pair, if it follows. -/
def lowHalf : List Char → Option (Nat × List Char)
  | '\\' :: 'u' :: cs => (hexDigits 4 cs).filter fun p => isLow p.1
  | _ => none

/-- What follows `\u`: a character, or half a pair, which stands for nothing. -/
def unicodeEscape (cs : List Char) : Option (Option Char × List Char) :=
  (hexDigits 4 cs).map fun (n, r) =>
    if isHigh n then
      match lowHalf r with
      | some (m, r) => (some (ofPair n m), r)
      | none => (none, r)
    else if isLow n then (none, r)
    else (some (Char.ofNat n), r)

/-- One character of a text, escaped or not; an inner `none` stands for nothing. -/
def oneChar : List Char → Option (Option Char × List Char)
  | '\\' :: 'u' :: cs => unicodeEscape cs
  | '\\' :: c :: cs => (simpleEscape? c).map fun x => (some x, cs)
  | ['\\'] => none
  | c :: cs => if c.val.toNat < 0x20 then none else some (some c, cs)
  | [] => none

/-- What a text holds up to its closing quote; the fuel bounds its length. -/
def string : Nat → List Char → Option (Option (List Char) × List Char)
  | 0, _ => none
  | fuel + 1, cs =>
    match cs with
    | '"' :: r => some (some [], r)
    | _ => do
      let (c, r) ← oneChar cs
      let (s, r) ← string fuel r
      return (c.bind fun c => s.map (c :: ·), r)

/-! ## Values -/

/-- Consume an expected word. -/
def expect (word : List Char) (cs : List Char) : Option (List Char) :=
  if word.isPrefixOf cs then some (cs.drop word.length) else none

/-- Put an item in front of a list. -/
def consItem (v : Json) (p : List Json × List Char) : List Json × List Char := (v :: p.1, p.2)

/-- Put a member in front of the others; a name that cannot be kept spoils the object. -/
def consMember (k : Option (List Char)) (v : Json) (p : Option (List (String × Json)) × List Char) :
    Option (List (String × Json)) × List Char :=
  (k.bind fun k => p.1.map ((String.ofList k, v) :: ·), p.2)

/-- A container where there is room for one. -/
def roomy (room : Nat) (v : Json) : Json := if room = 0 then .unfit else v

mutual

/-- A value inside `127 - room` containers; the fuel bounds the length of its text. -/
def value : Nat → Nat → List Char → Option (Json × List Char)
  | 0, _, _ => none
  | fuel + 1, room, cs =>
    match skip cs with
    | '[' :: r =>
      match skip r with
      | ']' :: r => some (roomy room (.list []), r)
      | r => (items fuel (room - 1) r).map fun p => (roomy room (.list p.1), p.2)
    | '\x7b' :: r =>
      match skip r with
      | '\x7d' :: r => some (roomy room (.object []), r)
      | r => (members fuel (room - 1) r).map fun p =>
          (roomy room (match p.1 with | some ms => .object ms | none => .unfit), p.2)
    | '"' :: r => (string fuel r).map fun p =>
        (match p.1 with | some s => .text (String.ofList s) | none => .unfit, p.2)
    | 't' :: r => (expect ['r', 'u', 'e'] r).map fun r => (.bool true, r)
    | 'f' :: r => (expect ['a', 'l', 's', 'e'] r).map fun r => (.bool false, r)
    | 'n' :: r => (expect ['u', 'l', 'l'] r).map fun r => (.null, r)
    | r => (numeral r).map fun p =>
        (match p.1 with | some n => .number n | none => .unfit, p.2)

/-- The items of a list up to its closing bracket. -/
def items : Nat → Nat → List Char → Option (List Json × List Char)
  | 0, _, _ => none
  | fuel + 1, room, cs =>
    (value fuel room cs).bind fun (v, r) =>
      match skip r with
      | ']' :: r => some ([v], r)
      | ',' :: r => (items fuel room r).map (consItem v)
      | _ => none

/-- The members of an object up to its closing brace. -/
def members : Nat → Nat → List Char → Option (Option (List (String × Json)) × List Char)
  | 0, _, _ => none
  | fuel + 1, room, cs =>
    match skip cs with
    | '"' :: r =>
      (string fuel r).bind fun (k, r) =>
        match skip r with
        | ':' :: r =>
          (value fuel room r).bind fun (v, r) =>
            match skip r with
            | '\x7d' :: r => some (consMember k v (some [], r))
            | ',' :: r => (members fuel room r).map (consMember k v)
            | _ => none
        | _ => none
    | _ => none

end

/-- The number of containers that may stand around a value. -/
def maxDepth : Nat := 127

/-- The value of a text that holds exactly one. -/
def read? (s : String) : Option Json :=
  let cs := s.toList
  match value (2 * cs.length + 2) maxDepth cs with
  | some (v, r) => if (skip r).isEmpty then some v else none
  | none => none

end ApiSurface.Json
