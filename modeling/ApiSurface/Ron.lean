import ApiSurface.Json.Basic
import ApiSurface.Settings.Numeral

/-!
# RON

Values with named and unnamed structures, options, characters and several kinds of texts.

* `skip?`: the text behind blanks and comments, unless a comment does not end;
* `text`, `character`, `numeral`, `identifier`: the leaves;
* `value`: a value, with what follows it;
* `Ron.read?`: the value of a whole text.

Structures are nested at most `maxDepth` deep; both a structure and what stands in it count.
-/

namespace ApiSurface.Ron

open ApiSurface.Text (codedChar hexDigits hexValue? charOf?)

/-! ## Blanks -/

/-- Characters between tokens. -/
def isSpace (c : Char) : Bool := c == ' ' || c == '\n' || c == '\t' || c == '\r'

/-- What follows the end of a comment that may hold others, if it ends. -/
def afterComment : (depth : Nat) → List Char → Option (List Char)
  | _, [] => none
  | depth, '/' :: '*' :: r => afterComment (depth + 1) r
  | 0, '*' :: '/' :: r => some r
  | depth + 1, '*' :: '/' :: r => afterComment depth r
  | depth, _ :: r => afterComment depth r

/-- The text behind blanks and comments, unless a comment is malformed; the fuel bounds their
number. -/
def skipSteps : (fuel : Nat) → List Char → Option (List Char)
  | 0, cs => some cs
  | fuel + 1, cs =>
    match cs.dropWhile isSpace with
    | '/' :: '/' :: r => skipSteps fuel (r.dropWhile (· != '\n'))
    | '/' :: '*' :: r => (afterComment 0 r).bind (skipSteps fuel)
    | '/' :: _ => none
    | r => some r

/-- The text behind blanks and comments. -/
def skip? (cs : List Char) : Option (List Char) := skipSteps (cs.length + 1) cs

/-- A text that an expected one begins, without it. -/
def after? (front : String) (cs : List Char) : Option (List Char) :=
  if front.toList.isPrefixOf cs then some (cs.drop front.length) else none

/-- What follows an expected mark and the blanks behind it. -/
def mark? (front : String) (cs : List Char) : Option (List Char) := (after? front cs).bind skip?

/-- Whether a comma stands behind blanks, and the text behind it and more blanks. -/
def comma (cs : List Char) : Option (Bool × List Char) := do
  match ← skip? cs with
  | ',' :: r => return (true, ← skip? r)
  | r => return (false, r)

/-! ## Names -/

/-- Characters that a name may start with. -/
def startsName (c : Char) : Bool := c.isAlpha || c == '_'

/-- Characters of names. -/
def isNameChar (c : Char) : Bool := c.isAlphanum || c == '_'

/-- Characters of names that are marked as such. -/
def isRawNameChar (c : Char) : Bool := isNameChar c || c == '.' || c == '+' || c == '-'

/-- A name that does not need its mark. -/
def plainName (cs : List Char) : Option (String × List Char) :=
  let r := cs.dropWhile isNameChar
  if r.head?.any isRawNameChar then none else some (String.ofList (cs.takeWhile isNameChar), r)

/-- A name. -/
def identifier (cs : List Char) : Option (String × List Char) :=
  match cs with
  | ['r'] => none
  | 'r' :: '"' :: _ => none
  | 'r' :: '#' :: r =>
    if r.head?.any isRawNameChar then
      some (String.ofList (r.takeWhile isRawNameChar), r.dropWhile isRawNameChar)
    else none
  | c :: _ => if startsName c then plainName cs else none
  | [] => none

/-- What follows a word, if the word ends there. -/
def word? (w : String) (cs : List Char) : Option (List Char) :=
  (after? w cs).filter fun r => !r.head?.any isNameChar

/-! ## Texts -/

/-- A character that is written by its code point in up to six digits. -/
def bracedChar (cs : List Char) : Option (Char × List Char) :=
  let ds := (cs.take 6).takeWhile (· != '\x7d')
  match cs.drop ds.length with
  | '\x7d' :: r => ((Numeral.digitsIn 16 ds).bind charOf?).map fun c => (c, r)
  | _ => none

/-- The character behind a backslash. -/
def escaped : List Char → Option (Char × List Char)
  | '\'' :: r => some ('\'', r)
  | '"' :: r => some ('"', r)
  | '\\' :: r => some ('\\', r)
  | 'n' :: r => some ('\n', r)
  | 'r' :: r => some ('\r', r)
  | 't' :: r => some ('\t', r)
  | '0' :: r => some ('\x00', r)
  | 'x' :: r => codedChar 2 r
  | 'u' :: '\x7b' :: r => bracedChar r
  | _ => none

/-- A text up to its closing quote; the fuel bounds its length. -/
def escapedText : (fuel : Nat) → List Char → Option (List Char × List Char)
  | 0, _ => none
  | _ + 1, [] => none
  | _ + 1, '"' :: r => some ([], r)
  | fuel + 1, '\\' :: r => do
    let (c, r) ← escaped r
    let (cs, r) ← escapedText fuel r
    return (c :: cs, r)
  | fuel + 1, c :: r => (escapedText fuel r).map fun p => (c :: p.1, p.2)

/-- A text up to a quote with as many signs behind it as there were in front. -/
def rawText (closing : List Char) : List Char → Option (List Char × List Char)
  | [] => none
  | c :: r =>
    if closing.isPrefixOf (c :: r) then some ([], (c :: r).drop closing.length)
    else (rawText closing r).map fun p => (c :: p.1, p.2)

/-- A text of either kind. -/
def text (cs : List Char) : Option (String × List Char) :=
  match cs with
  | '"' :: r => (escapedText (r.length + 1) r).map fun p => (String.ofList p.1, p.2)
  | 'r' :: r =>
    let signs := r.takeWhile (· == '#')
    match r.drop signs.length with
    | '"' :: r => (rawText ('"' :: signs) r).map fun p => (String.ofList p.1, p.2)
    | _ => none
  | _ => none

/-- A character in quotes. -/
def character (cs : List Char) : Option (Char × List Char) :=
  match cs with
  | '\'' :: '\\' :: r =>
    match escaped r with
    | some (c, '\'' :: r) => some (c, r)
    | _ => none
  | '\'' :: '\'' :: _ => none
  | '\'' :: c :: '\'' :: r => some (c, r)
  | _ => none

/-! ## Numbers -/

/-- Characters of doubles. -/
def isRealChar (c : Char) : Bool :=
  c.isDigit || c == 'e' || c == 'E' || c == '.' || c == '+' || c == '-' || c == '_'

/-- Characters of integers. -/
def isIntegerChar (c : Char) : Bool := (hexValue? c).isSome || c == '_'

/-- A double. -/
def realNumeral (cs : List Char) : Option (Value × List Char) :=
  match word? "inf" cs, word? "+inf" cs, word? "-inf" cs,
    word? "NaN" cs <|> word? "+NaN" cs <|> word? "-NaN" cs with
  | some r, _, _, _ => some (.real (.infinite false), r)
  | _, some r, _, _ => some (.real (.infinite false), r)
  | _, _, some r, _ => some (.real (.infinite true), r)
  | _, _, _, some r => some (.real .nan, r)
  | _, _, _, _ =>
    (Numeral.real? (cs.takeWhile isRealChar)).map fun x => (.real x, cs.dropWhile isRealChar)

/-- The base of digits, by the mark in front of them, and the digits. -/
def based : List Char → Nat × List Char
  | '0' :: 'x' :: r => (16, r)
  | '0' :: 'b' :: r => (2, r)
  | '0' :: 'o' :: r => (8, r)
  | r => (10, r)

/-- The number of digits between which low lines may stand. -/
def digitsOf (base : Nat) (ds : List Char) : Option Nat :=
  if ds.head? = some '_' then none else Numeral.digitsIn base (ds.filter (· != '_'))

/-- The greatest natural number that is read as one. -/
def maxNatural : Nat := Nat.pow 2 64 - 1

/-- A number as a value; a natural one beyond the integers becomes a double. -/
def integerOf? (isSigned negative : Bool) (n : Nat) : Option Value :=
  if isSigned then (Numeral.inRange? negative n).map .integer
  else if n ≤ maxNatural then
    match Value.ofNumber (.natural n) with
    | .nothing => none
    | v => some v
  else none

/-- An integer. -/
def integerNumeral (cs : List Char) : Option (Value × List Char) :=
  let isSigned := cs.head?.any fun c => c == '+' || c == '-'
  let (negative, r) := Numeral.signed cs
  let (base, r) := based r
  let ds := r.takeWhile isIntegerChar
  ((digitsOf base ds).bind (integerOf? isSigned negative)).map fun v => (v, r.drop ds.length)

/-- A number. What goes on with characters of doubles is one, and so is what is no integer. -/
def numeral (cs : List Char) : Option (Value × List Char) :=
  let r := (Numeral.signed cs).2
  if (r.takeWhile isIntegerChar).length < (r.takeWhile isRealChar).length then realNumeral cs
  else (integerNumeral cs).or (realNumeral cs)

/-! ## Extensions -/

/-- The names of extensions. -/
def extensions : List String := ["unwrap_newtypes", "implicit_some", "unwrap_variant_newtypes"]

/-- Names of extensions and commas between them; the fuel bounds their number. -/
def extensionNames : (fuel : Nat) → List Char → Option (List String × List Char)
  | 0, _ => none
  | fuel + 1, cs => do
    let (name, r) ← (identifier cs).filter fun p => extensions.contains p.1
    let (more, r) ← comma r
    match more, r.head?.any isNameChar with
    | true, true => (extensionNames fuel r).map fun p => (name :: p.1, p.2)
    | false, true => none
    | _, false => return ([name], r)

/-- One list of extensions behind its sign. -/
def extensionList (cs : List Char) : Option (List String × List Char) := do
  let r ← mark? "#" cs >>= mark? "!" >>= mark? "[" >>= mark? "enable" >>= mark? "("
  let (names, r) ← extensionNames (r.length + 1) r
  return (names, ← mark? ")" r >>= mark? "]")

/-- All lists of extensions in front of the value; the fuel bounds their number. -/
def extensionLists : (fuel : Nat) → List Char → Option (List String × List Char)
  | 0, _ => none
  | fuel + 1, cs =>
    match cs with
    | '#' :: _ => do
      let (names, r) ← extensionList cs
      (extensionLists fuel r).map fun p => (names ++ p.1, p.2)
    | _ => some ([], cs)

/-! ## Values -/

/-- How deep structures may be nested. -/
def maxDepth : Nat := 128

/-- Whether what is in parentheses has no names, by what stands behind the opening one. -/
def isTuple? (cs : List Char) : Option Bool :=
  match identifier cs with
  | none => some true
  | some (_, r) => (skip? r).bind fun r => r.head?.map (· != ':')

/-- A word that is a value. -/
def wordValue? (cs : List Char) : Option (Value × List Char) :=
  match word? "true" cs, word? "false" cs, word? "None" cs, after? "()" cs with
  | some r, _, _, _ => some (.bool true, r)
  | _, some r, _, _ => some (.bool false, r)
  | _, _, some r, _ => some (.nothing, r)
  | _, _, _, some r => some (.nothing, r)
  | none, none, none, none =>
    match word? "inf" cs, word? "-inf" cs, word? "NaN" cs with
    | some r, _, _ => some (.real (.infinite false), r)
    | _, some r, _ => some (.real (.infinite true), r)
    | _, _, some r => some (.real .nan, r)
    | _, _, _ => none

/-- A value that holds no others. -/
def leaf (cs : List Char) : Option (Value × List Char) :=
  match cs with
  | [] => none
  | '.' :: _ => realNumeral cs
  | '"' :: _ => (text cs).map fun p => (.text p.1, p.2)
  | 'r' :: _ => (text cs).map fun p => (.text p.1, p.2)
  | '\'' :: _ => (character cs).map fun p => (.text (String.singleton p.1), p.2)
  | c :: _ => if c.isDigit || c == '+' || c == '-' then numeral cs else none

/-- A key of a table: a text or a character. -/
def key (cs : List Char) : Option (String × List Char) :=
  (text cs).or ((character cs).map fun p => (String.singleton p.1, p.2))

/-- Whether something follows before the closing bracket; it does so behind a comma only. -/
def goesOn? (closing : Char) (hadComma : Bool) (cs : List Char) : Option Bool :=
  match cs with
  | [] => none
  | c :: _ => if c = closing then some false else if hadComma then some true else none

/-- The room inside a structure. -/
def inside? : (room : Nat) → Option Nat
  | 0 => none
  | room + 1 => some room

mutual

/-- A value, with room for structures in it. The fuel bounds the number of values. -/
def value (implicit : Bool) : (fuel room : Nat) → List Char → Option (Value × List Char)
  | 0, _, _ => none
  | fuel + 1, room, cs =>
    match wordValue? cs, word? "Some" cs, identifier cs with
    | some p, _, _ => some p
    | none, some r, _ => option implicit fuel room r
    | none, none, some (_, r) => (skip? r).bind (structured implicit fuel room)
    | none, none, none =>
      match cs with
      | '(' :: _ => structured implicit fuel room cs
      | '[' :: r => do
        let (vs, r) ← items implicit ']' fuel (← inside? room) true r
        return (.list vs, r)
      | '\x7b' :: r => do
        let (es, r) ← members implicit '\x7d' key fuel (← inside? room) true r
        return (.table (Json.lastOf es), r)
      | _ => leaf cs
termination_by structural fuel => fuel

/-- A value that is there, behind the word for that. -/
def option (implicit : Bool) : (fuel room : Nat) → List Char → Option (Value × List Char)
  | 0, _, _ => none
  | fuel + 1, room, cs => do
    match ← skip? cs with
    | '(' :: r =>
      let (v, r) ← value implicit fuel (← inside? room) (← skip? r)
      let (_, r) ← comma r
      return (v, ← after? ")" r)
    | r => if implicit then value implicit fuel (← inside? room) r else none
termination_by structural fuel => fuel

/-- What follows the name of a structure: parts with names, parts without, or nothing. -/
def structured (implicit : Bool) : (fuel room : Nat) → List Char → Option (Value × List Char)
  | 0, _, _ => none
  | fuel + 1, room, cs =>
    match cs with
    | '(' :: r => do
      let r ← skip? r
      if ← isTuple? r then
        let (vs, r) ← items implicit ')' fuel (← inside? room) true r
        return (.list vs, r)
      else
        let (es, r) ← members implicit ')' identifier fuel (← inside? room) true r
        return (.table (Json.lastOf es), r)
    | _ => some (.nothing, cs)
termination_by structural fuel => fuel

/-- Values up to a closing bracket, which is left out. -/
def items (implicit : Bool) (closing : Char) :
    (fuel room : Nat) → (hadComma : Bool) → List Char → Option (List Value × List Char)
  | 0, _, _, _ => none
  | fuel + 1, room, hadComma, cs => do
    let cs ← skip? cs
    if ← goesOn? closing hadComma cs then
      let (v, r) ← value implicit fuel (← inside? room) cs
      let (more, r) ← comma r
      (items implicit closing fuel room more r).map fun p => (v :: p.1, p.2)
    else return ([], cs.drop 1)
termination_by structural fuel => fuel

/-- Keys with their values up to a closing bracket, which is left out. -/
def members (implicit : Bool) (closing : Char) (key : List Char → Option (String × List Char)) :
    (fuel room : Nat) → (hadComma : Bool) → List Char →
      Option (List (String × Value) × List Char)
  | 0, _, _, _ => none
  | fuel + 1, room, hadComma, cs => do
    let cs ← skip? cs
    if ← goesOn? closing hadComma cs then
      let (k, r) ← key cs
      let r ← after? ":" (← skip? r)
      let (v, r) ← value implicit fuel (← inside? room) (← skip? r)
      let (more, r) ← comma r
      (members implicit closing key fuel room more r).map fun p => ((k, v) :: p.1, p.2)
    else return ([], cs.drop 1)
termination_by structural fuel => fuel

end

/-- The value of a whole text. -/
def read? (text : String) : Option Value := do
  let (names, r) ← extensionLists (text.length + 1) (← skip? text.toList)
  let fuel := 2 * text.length + 2
  let (v, r) ← value (names.contains "implicit_some") fuel maxDepth r
  if (← skip? r).isEmpty then return v else none

end ApiSurface.Ron
