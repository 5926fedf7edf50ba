import ApiSurface.Json.Reader
import ApiSurface.Settings.Value

/-!
# Scalars in TOML

Readers on characters that return what they read and the rest of the text.

* `string`: basic and literal strings, on one line or several;
* `integer`, `real`, `moment`: numbers and dates; what is left behind them shows if they were whole;
* `scalar`: any of these, or a truth value.
-/

namespace ApiSurface.Toml

open ApiSurface.Json (digitRun)
open ApiSurface.Number (ofDigits)
open ApiSurface.Text (codedChar hexValue?)

/-! ## Characters -/

/-- Blanks on a line. -/
def isBlank (c : Char) : Bool := c == ' ' || c == '\t'

/-- The text behind blanks. -/
def skipBlanks (cs : List Char) : List Char := cs.dropWhile isBlank

/-- Characters that may stand in a text as they are. -/
def isPlain (c : Char) : Bool := c == '\t' || (0x20 ≤ c.val.toNat && c.val.toNat != 0x7F)

/-- What follows a line break. -/
def afterBreak : List Char → Option (List Char)
  | '\n' :: r => some r
  | '\r' :: '\n' :: r => some r
  | _ => none

/-- The text behind blanks and line breaks; the fuel bounds their number. -/
def skipSpace : (fuel : Nat) → List Char → List Char
  | 0, cs => cs
  | fuel + 1, cs =>
    match skipBlanks cs with
    | r => match afterBreak r with
      | some r => skipSpace fuel r
      | none => r

/-! ## Strings -/

/-- The character behind a backslash. -/
def escaped : List Char → Option (Char × List Char)
  | 'b' :: r => some ('\x08', r)
  | 't' :: r => some ('\t', r)
  | 'n' :: r => some ('\n', r)
  | 'f' :: r => some ('\x0c', r)
  | 'r' :: r => some ('\r', r)
  | '"' :: r => some ('"', r)
  | '\\' :: r => some ('\\', r)
  | 'u' :: r => codedChar 4 r
  | 'U' :: r => codedChar 8 r
  | _ => none

/-- Put a character in front of what was read. -/
def consChar (c : Char) (p : List Char × List Char) : List Char × List Char := (c :: p.1, p.2)

/-- A string on one line, up to its closing quote; the fuel bounds its length. -/
def basicLine : (fuel : Nat) → List Char → Option (List Char × List Char)
  | 0, _ => none
  | fuel + 1, cs =>
    match cs with
    | '"' :: r => some ([], r)
    | '\\' :: r => do
      let (c, r) ← escaped r
      (basicLine fuel r).map (consChar c)
    | c :: r => if isPlain c then (basicLine fuel r).map (consChar c) else none
    | [] => none

/-- A literal string on one line, up to its closing quote. -/
def literalLine : List Char → Option (List Char × List Char)
  | [] => none
  | c :: r =>
    if c = '\'' then some ([], r)
    else if isPlain c then (literalLine r).map (consChar c)
    else none

/-- The quotes at the front of a text: how many belong to the contents, and, if they close the
string, what follows them. -/
def quotes (q : Char) (cs : List Char) : Nat × Option (List Char) :=
  let n := (cs.takeWhile (· == q)).length
  if n < 3 then (n, none) else (min n 5 - 3, some (cs.drop (min n 5)))

/-- Where a backslash ends a line, the text behind all blanks and line breaks. -/
def joinedLine (fuel : Nat) (cs : List Char) : Option (List Char) :=
  (afterBreak (skipBlanks cs)).map (skipSpace fuel)

/-- A basic string over several lines, up to its closing quotes; the fuel bounds its length. -/
def basicBlock : (fuel : Nat) → List Char → Option (List Char × List Char)
  | 0, _ => none
  | fuel + 1, cs =>
    match cs with
    | [] => none
    | '"' :: r =>
      match quotes '"' cs with
      | (n, some rest) => some (List.replicate n '"', rest)
      | (_, none) => (basicBlock fuel r).map (consChar '"')
    | '\\' :: r =>
      match joinedLine fuel r with
      | some r => basicBlock fuel r
      | none => do
        let (c, r) ← escaped r
        (basicBlock fuel r).map (consChar c)
    | c :: r =>
      match afterBreak cs with
      | some r => (basicBlock fuel r).map (consChar '\n')
      | none => if isPlain c then (basicBlock fuel r).map (consChar c) else none

/-- A literal string over several lines, up to its closing quotes; the fuel bounds its length. -/
def literalBlock : (fuel : Nat) → List Char → Option (List Char × List Char)
  | 0, _ => none
  | fuel + 1, cs =>
    match cs with
    | [] => none
    | '\'' :: r =>
      match quotes '\'' cs with
      | (n, some rest) => some (List.replicate n '\'', rest)
      | (_, none) => (literalBlock fuel r).map (consChar '\'')
    | c :: r =>
      match afterBreak cs with
      | some r => (literalBlock fuel r).map (consChar '\n')
      | none => if isPlain c then (literalBlock fuel r).map (consChar c) else none

/-- A string over several lines does not hold a line break right behind its opening quotes. -/
def withoutFirstBreak (cs : List Char) : List Char := (afterBreak cs).getD cs

/-- A string on one line. -/
def lineString : List Char → Option (List Char × List Char)
  | '"' :: r => basicLine (r.length + 1) r
  | '\'' :: r => literalLine r
  | _ => none

/-- A string of any form. -/
def string : List Char → Option (List Char × List Char)
  | '"' :: '"' :: '"' :: r => basicBlock (r.length + 1) (withoutFirstBreak r)
  | '\'' :: '\'' :: '\'' :: r => literalBlock (r.length + 1) (withoutFirstBreak r)
  | cs => lineString cs

/-! ## Numbers -/

/-- Digits of a kind with single low lines between them; the low lines are left out. -/
def spacedDigits (p : Char → Bool) : List Char → List Char × List Char
  | [] => ([], [])
  | '_' :: d :: r =>
    if p d then
      let (ds, r) := spacedDigits p r
      (d :: ds, r)
    else ([], '_' :: d :: r)
  | d :: r =>
    if p d then
      let (ds, r) := spacedDigits p r
      (d :: ds, r)
    else ([], d :: r)

/-- One digit of a kind and more of them behind it. -/
def digitsOf (p : Char → Bool) : List Char → Option (List Char × List Char)
  | [] => none
  | d :: r =>
    if p d then
      let (ds, r) := spacedDigits p r
      some (d :: ds, r)
    else none

/-- A sign, if there is one, and whether it is a minus. -/
def sign : List Char → Bool × List Char
  | '+' :: r => (false, r)
  | '-' :: r => (true, r)
  | r => (false, r)

/-- Decimal digits of an integer: a zero alone, or digits that start with another. -/
def decimalDigits : List Char → Option (List Char × List Char)
  | '0' :: r => some (['0'], r)
  | r => digitsOf Char.isDigit r

/-- An integer in the range of 64 bits. -/
def ranged (negative : Bool) (n : Nat) : Option Value :=
  if negative then
    if n ≤ Value.maxInteger + 1 then some (.integer (-(n : Int))) else none
  else if n ≤ Value.maxInteger then some (.integer n) else none

/-- The value of digits in a base. -/
def inBase (base : Nat) (ds : List Char) : Nat :=
  ds.foldl (fun n c => n * base + (hexValue? c).getD 0) 0

/-- Digits of a base, as an integer. -/
def based (base : Nat) (cs : List Char) : Option (Value × List Char) := do
  let isDigit (c : Char) : Bool := (hexValue? c).any (· < base)
  let (ds, r) ← digitsOf isDigit cs
  let v ← ranged false (inBase base ds)
  return (v, r)

/-- An integer. -/
def integer (cs : List Char) : Option (Value × List Char) :=
  match cs with
  | '0' :: 'x' :: r => based 16 r
  | '0' :: 'o' :: r => based 8 r
  | '0' :: 'b' :: r => based 2 r
  | _ => do
    let (negative, r) := sign cs
    let (ds, r) ← decimalDigits r
    let v ← ranged negative (ofDigits ds)
    return (v, r)

/-- The double of a decimal; beyond the range only a negative one is infinite. -/
def realOf? (negative : Bool) (digits : List Char) (exponent : Int) : Option Value :=
  match Binary64.ofDecimal negative (ofDigits digits) exponent with
  | some x => some (.real (.finite x))
  | none => if negative then some (.real (.infinite true)) else none

/-- The digits behind a point. -/
def fraction : List Char → Option (List Char × List Char)
  | '.' :: r => digitsOf Char.isDigit r
  | _ => none

/-- An exponent. -/
def exponent : List Char → Option (Int × List Char)
  | c :: r =>
    if c == 'e' || c == 'E' then do
      let (negative, r) := sign r
      let (ds, r) ← digitsOf Char.isDigit r
      return (if negative then -(ofDigits ds : Int) else ofDigits ds, r)
    else none
  | [] => none

/-- A double without digits. -/
def specialReal (negative : Bool) : List Char → Option (Value × List Char)
  | 'i' :: 'n' :: 'f' :: r => some (.real (.infinite negative), r)
  | 'n' :: 'a' :: 'n' :: r => some (.real .nan, r)
  | _ => none

/-- A double: an integer with a fraction, an exponent or both, or one without digits. -/
def real (cs : List Char) : Option (Value × List Char) :=
  let (negative, r) := sign cs
  match decimalDigits r with
  | none => specialReal negative r
  | some (ds, r) =>
    match fraction r, exponent r with
    | some (fs, r), _ =>
      match exponent r with
      | some (e, r) => (realOf? negative (ds ++ fs) (e - fs.length)).map fun v => (v, r)
      | none => (realOf? negative (ds ++ fs) (-fs.length)).map fun v => (v, r)
    | none, some (e, r) => (realOf? negative ds e).map fun v => (v, r)
    | none, none => none

/-! ## Dates and times -/

/-- A number of exactly so many digits, in a range. -/
def fixed (count low high : Nat) (cs : List Char) : Option (Nat × List Char) :=
  let ds := cs.take count
  if ds.length = count ∧ ds.all Char.isDigit ∧ low ≤ ofDigits ds ∧ ofDigits ds ≤ high then
    some (ofDigits ds, cs.drop count)
  else none

/-- An expected character. -/
def char (c : Char) : List Char → Option (List Char)
  | d :: r => if c = d then some r else none
  | [] => none

/-- A number with two digits. -/
def twoDigits (n : Nat) : String :=
  String.ofList [Nat.digitChar (n / 10 % 10), Nat.digitChar (n % 10)]

/-- A number with four digits. -/
def fourDigits (n : Nat) : String := twoDigits (n / 100) ++ twoDigits n

/-- The number of days of a month. -/
def daysIn (year month : Nat) : Nat :=
  if month = 2 then
    if year % 4 = 0 ∧ (year % 100 ≠ 0 ∨ year % 400 = 0) then 29 else 28
  else if month = 4 ∨ month = 6 ∨ month = 9 ∨ month = 11 then 30
  else 31

/-- A date. -/
def date (cs : List Char) : Option (String × List Char) := do
  let (year, r) ← fixed 4 0 9999 cs
  let r ← char '-' r
  let (month, r) ← fixed 2 1 12 r
  let r ← char '-' r
  let (day, r) ← fixed 2 1 (daysIn year month) r
  return (fourDigits year ++ "-" ++ twoDigits month ++ "-" ++ twoDigits day, r)

/-- The digits of a fraction of a second, nine at most and without zeros at the end. -/
def secondFraction (cs : List Char) : String × List Char :=
  match cs with
  | '.' :: r =>
    match digitRun r with
    | ([], _) => ("", cs)
    | (ds, r) =>
      let kept := ((ds.take 9).reverse.dropWhile (· == '0')).reverse
      (if kept.isEmpty then "" else String.ofList ('.' :: kept), r)
  | _ => ("", cs)

/-- A time of day. -/
def time (cs : List Char) : Option (String × List Char) := do
  let (hour, r) ← fixed 2 0 23 cs
  let r ← char ':' r
  let (minute, r) ← fixed 2 0 59 r
  let r ← char ':' r
  let (second, r) ← fixed 2 0 60 r
  let (part, r) := secondFraction r
  return (twoDigits hour ++ ":" ++ twoDigits minute ++ ":" ++ twoDigits second ++ part, r)

/-- The offset of a time, if there is one. -/
def offset (cs : List Char) : Option (String × List Char) :=
  match cs with
  | 'Z' :: r => some ("Z", r)
  | 'z' :: r => some ("Z", r)
  | c :: r =>
    if c == '+' || c == '-' then do
      let (hour, r) ← fixed 2 0 23 r
      let r ← char ':' r
      let (minute, r) ← fixed 2 0 59 r
      let mark := if c == '-' && hour + minute != 0 then "-" else "+"
      return (mark ++ twoDigits hour ++ ":" ++ twoDigits minute, r)
    else some ("", cs)
  | [] => some ("", [])

/-- Whether a character stands between a date and a time. -/
def isTimeMark (c : Char) : Bool := c == 'T' || c == 't' || c == ' '

/-- A time behind a date, with its offset, if there is one. -/
def timeAfterDate (cs : List Char) : Option (String × List Char) :=
  match cs with
  | c :: r =>
    if isTimeMark c then
      match time r with
      | some (t, r) => (offset r).map fun (o, r) => ("T" ++ t ++ o, r)
      | none => some ("", cs)
    else some ("", cs)
  | [] => some ("", [])

/-- A date, a time or both, as a text in one spelling. -/
def moment (cs : List Char) : Option (Value × List Char) :=
  match date cs with
  | some (d, r) => (timeAfterDate r).map fun (t, r) => (.text (d ++ t), r)
  | none => (time cs).map fun (t, r) => (.text t, r)

/-! ## Scalars -/

/-- An expected word. -/
def word (w : List Char) (v : Value) (cs : List Char) : Option (Value × List Char) :=
  if w.isPrefixOf cs then some (v, cs.drop w.length) else none

/-- Whether a character starts a number or a date. -/
def startsNumber (c : Char) : Bool := c.isDigit || c == '+' || c == '-'

/-- A scalar. -/
def scalar (cs : List Char) : Option (Value × List Char) :=
  match cs with
  | '"' :: _ => (string cs).map fun (s, r) => (.text (String.ofList s), r)
  | '\'' :: _ => (string cs).map fun (s, r) => (.text (String.ofList s), r)
  | 't' :: _ => word ['t', 'r', 'u', 'e'] (.bool true) cs
  | 'f' :: _ => word ['f', 'a', 'l', 's', 'e'] (.bool false) cs
  | 'i' :: _ => specialReal false cs
  | 'n' :: _ => specialReal false cs
  | c :: _ => if startsNumber c then moment cs <|> real cs <|> integer cs else none
  | [] => none

end ApiSurface.Toml
