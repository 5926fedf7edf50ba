/-!
# Code points in hexadecimal

* `hexValue?`, `hexDigits`: hexadecimal digits, alone and in a given number;
* `charOf?`: the character of a code point;
* `isHigh`, `isLow`, `ofPair`: the two halves that stand for one character beyond the first plane.
-/

namespace ApiSurface.Text

/-- The value of a hexadecimal digit. -/
def hexValue? (c : Char) : Option Nat :=
  if c.isDigit then some (c.val.toNat - '0'.val.toNat)
  else if 'a' ≤ c ∧ c ≤ 'f' then some (c.val.toNat - 'a'.val.toNat + 10)
  else if 'A' ≤ c ∧ c ≤ 'F' then some (c.val.toNat - 'A'.val.toNat + 10)
  else none

/-- Hexadecimal digits of a given number. -/
def hexDigits : (count : Nat) → List Char → Option (Nat × List Char)
  | 0, cs => some (0, cs)
  | _ + 1, [] => none
  | count + 1, c :: cs => do
    let d ← hexValue? c
    let (n, r) ← hexDigits count cs
    return (d * Nat.pow 16 count + n, r)

/-- The character of a code point, if it is one. -/
def charOf? (n : Nat) : Option Char :=
  if n < 0xD800 ∨ (0xDFFF < n ∧ n < 0x110000) then some (Char.ofNat n) else none

/-- A character that is written by its code point, in a given number of hexadecimal digits. -/
def codedChar (count : Nat) (cs : List Char) : Option (Char × List Char) :=
  (hexDigits count cs).bind fun (n, r) => (charOf? n).map fun c => (c, r)

/-- Code units that start a pair. -/
def isHigh (n : Nat) : Bool := 0xD800 ≤ n && n ≤ 0xDBFF

/-- Code units that end a pair. -/
def isLow (n : Nat) : Bool := 0xDC00 ≤ n && n ≤ 0xDFFF

/-- The character of a pair. -/
def ofPair (high low : Nat) : Char :=
  Char.ofNat (0x10000 + (high - 0xD800) * 0x400 + (low - 0xDC00))

end ApiSurface.Text
