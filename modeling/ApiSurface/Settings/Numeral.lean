import ApiSurface.Settings.Value
import ApiSurface.Text.CodePoint

/-!
# Numerals in settings

The numerals that all formats share: a sign, digits, and for doubles a fraction and an exponent.

* `signed`: a sign and what it stands in front of;
* `digitsIn`: digits of any base;
* `integer?`, `integerIn?`: integers in the range of 64 bits;
* `real?`: doubles, those that are not finite by name.
-/

namespace ApiSurface.Numeral

/-- A sign, or none, and what follows it. -/
def signed : List Char → Bool × List Char
  | '-' :: ds => (true, ds)
  | '+' :: ds => (false, ds)
  | ds => (false, ds)

/-- The value of a digit in a base. -/
def digit? (base : Nat) (c : Char) : Option Nat := (Text.hexValue? c).filter (· < base)

/-- The number that digits of a base stand for; there must be some. -/
def digitsIn (base : Nat) (ds : List Char) : Option Nat :=
  if ds.isEmpty then none
  else ds.foldlM (fun n c => (digit? base c).map fun d => n * base + d) 0

/-- A number with its sign, in the range of 64 bits. -/
def inRange? (negative : Bool) (n : Nat) : Option Int :=
  if negative then if n ≤ Value.maxInteger + 1 then some (-(n : Int)) else none
  else if n ≤ Value.maxInteger then some n else none

/-- An integer with a sign in front, in some base. -/
def integerIn? (base : Nat) (cs : List Char) : Option Int :=
  (digitsIn base (signed cs).2).bind fun n => inRange? (signed cs).1 n

/-- An integer. -/
def integer? (cs : List Char) : Option Int := integerIn? 10 cs

/-- An exponent with its mark, or nothing. -/
def exponentOf? : List Char → Option Int
  | [] => some 0
  | c :: r =>
    let (negative, ds) := signed r
    if (c == 'e' || c == 'E') && !ds.isEmpty && ds.all Char.isDigit then
      some (if negative then -(Number.ofDigits ds : Int) else Number.ofDigits ds)
    else none

/-- The digits behind a point, and what follows them. -/
def fractionOf : List Char → List Char × List Char
  | '.' :: r => (r.takeWhile Char.isDigit, r.dropWhile Char.isDigit)
  | r => ([], r)

/-- A double without a sign; one beyond the range is infinite. -/
def unsignedReal? (negative : Bool) (cs : List Char) : Option Real :=
  let word := (String.ofList cs).toLower
  if word = "inf" ∨ word = "infinity" then some (.infinite negative)
  else if word = "nan" then some .nan
  else
    let whole := cs.takeWhile Char.isDigit
    let (part, r) := fractionOf (cs.dropWhile Char.isDigit)
    if whole.isEmpty ∧ part.isEmpty then none
    else (exponentOf? r).map fun e =>
      match Binary64.ofDecimal negative (Number.ofDigits (whole ++ part)) (e - part.length) with
      | some x => .finite x
      | none => .infinite negative

/-- A double. -/
def real? (cs : List Char) : Option Real := unsignedReal? (signed cs).1 (signed cs).2

end ApiSurface.Numeral
