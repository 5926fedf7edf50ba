import ApiSurface.Json.Basic
import ApiSurface.Settings.Numeral
import ApiSurface.Text.Blank
import ApiSurface.Text.Word

/-!
# JSON5

JSON with comments, trailing commas, keys without quotes, two kinds of quotes, and more numerals.

* `skip`: the text behind blanks and comments;
* `string`, `identifier`, `numeral`: the leaves;
* `value`: a value, with what follows it;
* `Json5.read?`: the value of a whole text.
-/

namespace ApiSurface.Json5

open ApiSurface.Text (codedChar hexDigits hexValue? isHigh isLow ofPair)

/-! ## Blanks -/

/-- Characters that end a line. -/
def isBreak (c : Char) : Bool := c == '\n' || c == '\r' || c == '\u2028' || c == '\u2029'

/-- Characters between tokens. -/
def isSpace (c : Char) : Bool := (Text.isBlank c && c != '\u0085') || c == '\ufeff'

/-- What follows the end of a comment over several lines, if it ends. -/
def afterComment : List Char → Option (List Char)
  | '*' :: '/' :: r => some r
  | _ :: r => afterComment r
  | [] => none

/-- The text behind blanks and comments; the fuel bounds their number. -/
def skipSteps : (fuel : Nat) → List Char → List Char
  | 0, cs => cs
  | fuel + 1, cs =>
    match cs.dropWhile isSpace with
    | '/' :: '/' :: r => skipSteps fuel (r.dropWhile fun c => !isBreak c)
    | '/' :: '*' :: r =>
      match afterComment r with
      | some r => skipSteps fuel r
      | none => '/' :: '*' :: r
    | r => r

/-- The text behind blanks and comments. -/
def skip (cs : List Char) : List Char := skipSteps (cs.length + 1) cs

/-! ## Texts -/

/-- The second half of a pair, if it follows. -/
def lowHalf : List Char → Option (Nat × List Char)
  | '\\' :: 'u' :: r => (hexDigits 4 r).filter fun p => isLow p.1
  | _ => none

/-- A character that is written by its code units; a half of a pair does not stand alone. -/
def coded (cs : List Char) : Option (Char × List Char) := do
  let (n, r) ← hexDigits 4 cs
  if isHigh n then
    let (m, r) ← lowHalf r
    return (ofPair n m, r)
  else (Text.charOf? n).map fun c => (c, r)

/-- What a backslash and what follows it stand for. A line break vanishes, and so does the backslash
in front of a character without a meaning of its own. -/
def escaped : List Char → Option (List Char × List Char)
  | 'b' :: r => some (['\x08'], r)
  | 'f' :: r => some (['\x0c'], r)
  | 'n' :: r => some (['\n'], r)
  | 'r' :: r => some (['\r'], r)
  | 't' :: r => some (['\t'], r)
  | 'v' :: r => some (['\x0b'], r)
  | '0' :: r => if (r.head?.any Char.isDigit) then none else some (['\x00'], r)
  | 'x' :: r => (codedChar 2 r).map fun p => ([p.1], p.2)
  | 'u' :: r => (coded r).map fun p => ([p.1], p.2)
  | '\r' :: '\n' :: r => some ([], r)
  | c :: r =>
    if isBreak c then some ([], r)
    else if c.isDigit then none
    else some ([c], r)
  | [] => none

/-- A text up to its closing quote; the fuel bounds its length. -/
def string (quote : Char) : (fuel : Nat) → List Char → Option (List Char × List Char)
  | 0, _ => none
  | _ + 1, [] => none
  | fuel + 1, c :: r =>
    if c = quote then some ([], r)
    else if isBreak c then none
    else do
      let (front, r) ← if c = '\\' then escaped r else some ([c], r)
      let (cs, r) ← string quote fuel r
      return (front ++ cs, r)

/-- Characters that a name may start with. -/
def startsName (c : Char) : Bool :=
  c == '$' || c == '_' || c.isAlpha || (0x7F < c.val.toNat && Text.isWord c)

/-- Characters that a name may go on with. -/
def continuesName (c : Char) : Bool := startsName c || c.isDigit

/-- The rest of a name; the fuel bounds its length. -/
def nameRest : (fuel : Nat) → List Char → Option (List Char × List Char)
  | 0, _ => none
  | fuel + 1, cs =>
    match cs with
    | '\\' :: 'u' :: r => do
      let (c, r) ← coded r
      let (cs, r) ← nameRest fuel r
      return (c :: cs, r)
    | c :: r =>
      if continuesName c then (nameRest fuel r).map fun p => (c :: p.1, p.2) else some ([], c :: r)
    | [] => some ([], [])

/-- A name without quotes. -/
def identifier (cs : List Char) : Option (List Char × List Char) :=
  match cs with
  | [] => none
  | c :: _ =>
    if startsName c || c == '\\' then
      (nameRest (cs.length + 1) cs).filter fun p => !p.1.isEmpty
    else none

/-! ## Numbers -/

/-- A text that an expected word begins, without it. -/
def after? (word : String) (cs : List Char) : Option (List Char) :=
  if word.toList.isPrefixOf cs then some (cs.drop word.length) else none

/-- The greatest integer in hexadecimal digits. -/
def maxHex : Nat := Nat.pow 2 32 - 1

/-- Hexadecimal digits behind their mark, as an integer without a sign. -/
def hexNumeral (signed : Bool) (cs : List Char) : Option (Value × List Char) :=
  let ds := cs.takeWhile fun c => (hexValue? c).isSome
  match Numeral.digitsIn 16 ds with
  | some n =>
    if signed || maxHex < n then none else some (.integer n, cs.drop ds.length)
  | none => none

/-- The exponent of a decimal, if there is one, and the rest. -/
def exponentOf (cs : List Char) : List Char × List Char :=
  match cs with
  | e :: r =>
    let sign := r.takeWhile fun c => c == '+' || c == '-'
    let ds := (r.drop sign.length).takeWhile Char.isDigit
    if (e == 'e' || e == 'E') && sign.length ≤ 1 && !ds.isEmpty then
      (e :: (sign ++ ds), r.drop (sign.length + ds.length))
    else ([], cs)
  | [] => ([], [])

/-- The digits in front of a point: a zero alone, or digits that start with another. -/
def wholePart (cs : List Char) : List Char :=
  match cs.takeWhile Char.isDigit with
  | '0' :: _ => ['0']
  | ds => ds

/-- The fraction of a decimal with its point, if there is one. -/
def pointPart (cs : List Char) : List Char :=
  match cs with
  | '.' :: r => '.' :: r.takeWhile Char.isDigit
  | _ => []

/-- A decimal behind its sign: an integer, or a double with a point or an exponent, which may not be
beyond the range. -/
def decimal (sign cs : List Char) : Option (Value × List Char) :=
  let whole := wholePart cs
  let point := pointPart (cs.drop whole.length)
  let (exponent, r) := exponentOf (cs.drop (whole.length + point.length))
  if whole.isEmpty && point.length ≤ 1 then none
  else if point.isEmpty && exponent.isEmpty then
    (Numeral.integer? (sign ++ whole)).map fun n => (.integer n, r)
  else
    match Numeral.real? (sign ++ whole ++ point ++ exponent) with
    | some (.finite x) => some (.real (.finite x), r)
    | _ => none

/-- A number behind its sign. -/
def unsigned (sign cs : List Char) : Option (Value × List Char) :=
  match after? "Infinity" cs, after? "NaN" cs, cs with
  | some r, _, _ => if sign = ['+'] then none else some (.real (.infinite (sign = ['-'])), r)
  | _, some r, _ => if sign = ['+'] then none else some (.real .nan, r)
  | _, _, '0' :: x :: r =>
    if (x == 'x' || x == 'X') && (r.head?.bind hexValue?).isSome then hexNumeral (!sign.isEmpty) r
    else decimal sign cs
  | _, _, _ => decimal sign cs

/-- A number. -/
def numeral : List Char → Option (Value × List Char)
  | '+' :: r => unsigned ['+'] r
  | '-' :: r => unsigned ['-'] r
  | r => unsigned [] r

/-! ## Values -/

/-- A text in either kind of quotes. -/
def quoted : List Char → Option (String × List Char)
  | '"' :: r => (string '"' (r.length + 1) r).map fun p => (String.ofList p.1, p.2)
  | '\'' :: r => (string '\'' (r.length + 1) r).map fun p => (String.ofList p.1, p.2)
  | _ => none

/-- A key: a name, or a text in quotes. -/
def key (cs : List Char) : Option (String × List Char) :=
  ((identifier cs).map fun p => (String.ofList p.1, p.2)).or (quoted cs)

/-- A value that holds no others. -/
def leaf (cs : List Char) : Option (Value × List Char) :=
  match after? "null" cs, after? "true" cs, after? "false" cs with
  | some r, _, _ => some (.nothing, r)
  | _, some r, _ => some (.bool true, r)
  | _, _, some r => some (.bool false, r)
  | none, none, none => ((quoted cs).map fun p => (.text p.1, p.2)).or (numeral cs)

mutual

/-- A value. The fuel bounds the number of values, keys and commas. -/
def value : (fuel : Nat) → List Char → Option (Value × List Char)
  | 0, _ => none
  | fuel + 1, cs =>
    match cs with
    | '[' :: r => (items fuel (skip r)).map fun p => (.list p.1, p.2)
    | '\x7b' :: r => (members fuel (skip r)).map fun p => (.table (Json.lastOf p.1), p.2)
    | _ => leaf cs

/-- Values up to the bracket that closes them. -/
def items : (fuel : Nat) → List Char → Option (List Value × List Char)
  | 0, _ => none
  | fuel + 1, cs =>
    match cs with
    | ']' :: r => some ([], r)
    | _ => do
      let (v, r) ← value fuel cs
      match skip r with
      | ',' :: r => (items fuel (skip r)).map fun p => (v :: p.1, p.2)
      | ']' :: r => return ([v], r)
      | _ => none

/-- Keys with their values up to the brace that closes them. -/
def members : (fuel : Nat) → List Char → Option (List (String × Value) × List Char)
  | 0, _ => none
  | fuel + 1, cs =>
    match cs with
    | '\x7d' :: r => some ([], r)
    | _ => do
      let (k, r) ← key cs
      let r ← after? ":" (skip r)
      let (v, r) ← value fuel (skip r)
      match skip r with
      | ',' :: r => (members fuel (skip r)).map fun p => ((k, v) :: p.1, p.2)
      | '\x7d' :: r => return ([(k, v)], r)
      | _ => none

end

/-- The value of a whole text. -/
def read? (text : String) : Option Value :=
  match value (text.length + 1) (skip text.toList) with
  | some (v, r) => if (skip r).isEmpty then some v else none
  | none => none

end ApiSurface.Json5
