import ApiSurface.Number.Binary64

/-!
# Numbers as texts

A number is a natural or a negative integer of 64 bits, or a finite double.

* `Number`: the three kinds;
* `Number.text`: integers digit by digit, doubles by their shortest digits;
* `Number.plain`: the same without an exponent and without a closing `.0`;
* `ofParts`: the number a numeral stands for.
-/

namespace ApiSurface

/-- A natural number, the negative of a positive one, or a double. -/
inductive Number
  | natural (n : Nat)
  | negative (n : Nat)
  | real (x : Binary64)
deriving DecidableEq, Repr

/-! ## Decimal notation -/

/-- Zeros as characters. -/
def zeros (n : Nat) : List Char := List.replicate n '0'

/-- The digits before and after the point of `digits · 10 ^ exponent`. -/
def positional (digits : Nat) (exponent : Int) : List Char × List Char :=
  let ds := Nat.toDigits 10 digits
  if 0 ≤ exponent then (ds ++ zeros exponent.toNat, [])
  else
    let k := (-exponent).toNat
    if k < ds.length then (ds.take (ds.length - k), ds.drop (ds.length - k))
    else (['0'], zeros (k - ds.length) ++ ds)

/-- One digit before the point and an exponent with its sign. -/
def scientific (digits : Nat) (power : Int) : List Char :=
  let mantissa := match Nat.toDigits 10 digits with
    | d :: [] => [d]
    | d :: ds => d :: '.' :: ds
    | [] => []
  mantissa ++ 'e' :: (if 0 ≤ power then '+' else '-') :: Nat.toDigits 10 power.natAbs

namespace Magnitude

/-- The power of ten of the first digit. -/
def leading (d : Nat × Int) : Int := (digitCount d.1 : Int) - 1 + d.2

/-- Positional with at least one digit after the point when the first digit stands for `10 ^ -5` to
`10 ^ 15`, scientific otherwise. -/
def text (m : Magnitude) : List Char :=
  let d := m.shortest
  let p := leading d
  if -5 ≤ p ∧ p ≤ 15 then
    let (whole, part) := positional d.1 d.2
    whole ++ '.' :: (if part.isEmpty then ['0'] else part)
  else scientific d.1 p

/-- Always positional, without a point when no digit follows it. -/
def plain (m : Magnitude) : List Char :=
  let d := m.shortest
  let (whole, part) := positional d.1 d.2
  if part.isEmpty then whole else whole ++ '.' :: part

end Magnitude

namespace Binary64

/-- The text of a double in a document. -/
def text (x : Binary64) : String :=
  String.ofList (if x.negative then '-' :: x.size.text else x.size.text)

/-- The text of a double where it stands for a word. -/
def plain (x : Binary64) : String :=
  String.ofList (if x.negative then '-' :: x.size.plain else x.size.plain)

end Binary64

namespace Number

/-- The text of a number in a document. -/
def text : Number → String
  | natural n => toString n
  | negative n => "-" ++ toString n
  | real x => x.text

/-! ## Numerals -/

/-- The greatest natural number of 64 bits. -/
def maxNatural : Nat := Nat.pow 2 64 - 1

/-- The value of a decimal digit. -/
def digitValue (c : Char) : Nat := c.val.toNat - '0'.val.toNat

/-- Append digits to a significand while it fits 64 bits; the other digits are returned. -/
def absorb (n : Nat) : List Char → Nat × List Char
  | [] => (n, [])
  | c :: cs =>
    let m := n * 10 + digitValue c
    if m ≤ maxNatural then absorb m cs else (n, c :: cs)

/-- The value of a text of digits. -/
def ofDigits (cs : List Char) : Nat := cs.foldl (fun n c => n * 10 + digitValue c) 0

/-- The greatest exponent that is read as one. -/
def maxExponentText : Nat := Nat.pow 2 31 - 1

/-- A signed exponent in the text of a numeral. -/
structure ExponentText where
  negative : Bool
  digits : List Char

/-- The double of a significand, a power of ten and an exponent; none beyond the range. -/
def realOf (negative : Bool) (n : Nat) (power : Int) (exponent : ExponentText) : Option Number :=
  let e := ofDigits exponent.digits
  if maxExponentText < e then
    if n ≠ 0 ∧ !exponent.negative then none else some (.real ⟨negative, .zero⟩)
  else
    (Binary64.ofScaled negative n (power + if exponent.negative then -(e : Int) else e)).map .real

/-- The number a numeral stands for: digits count as far as 64 bits hold them, further digits before
the point as factors of ten; none when the double is beyond the range. -/
def ofParts (negative : Bool) (whole : List Char) (part : Option (List Char))
    (exponent : Option ExponentText) : Option Number :=
  let (n, left) := absorb 0 whole
  match part, exponent with
  | none, none =>
    if left ≠ [] then (Binary64.ofScaled negative n left.length).map .real
    else if !negative then some (.natural n)
    else if 1 ≤ n ∧ n ≤ Nat.pow 2 63 then some (.negative n)
    else (Binary64.ofScaled true n 0).map .real
  | _, _ =>
    let digits := part.getD []
    let (m, dropped) := absorb n digits
    let power : Int := (left.length : Int) - (digits.length - dropped.length : Nat)
    realOf negative m power (exponent.getD ⟨false, []⟩)

end Number

end ApiSurface
