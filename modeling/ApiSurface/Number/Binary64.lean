/-!
# Finite binary floating-point numbers

A finite double is a sign, a significand and a power of two; all arithmetic is done on naturals.

* `Magnitude.nearest`: the double nearest a fraction, a tie going to the even significand;
* `Binary64.ofDecimal`: a decimal rounded once;
* `Binary64.ofScaled`: digits rounded first and then scaled by a rounded power of ten;
* `Magnitude.shortest`: the fewest decimal digits that read back.
-/

namespace ApiSurface

/-- The size of a finite double, `significand · 2 ^ exponent`. -/
structure Magnitude where
  significand : Nat
  exponent : Int
deriving DecidableEq, Repr

/-- A finite double: a sign and a size. -/
structure Binary64 where
  negative : Bool
  size : Magnitude
deriving DecidableEq, Repr

namespace Magnitude

/-- The least exponent of a double. -/
def minExponent : Int := -1074

/-- The greatest exponent of a double. -/
def maxExponent : Int := 971

/-- Zero. -/
def zero : Magnitude := ⟨0, minExponent⟩

/-- The size as a fraction of naturals. -/
def fraction (m : Magnitude) : Nat × Nat :=
  if 0 ≤ m.exponent then (m.significand * Nat.pow 2 m.exponent.toNat, 1)
  else (m.significand, Nat.pow 2 (-m.exponent).toNat)

/-- A quotient rounded to the nearest natural, a half going to the even one. -/
def roundHalfEven (num den : Nat) : Nat :=
  let q := num / den
  let r := num % den
  if 2 * r < den then q
  else if den < 2 * r then q + 1
  else q + q % 2

/-- The quotient of a fraction by a power of two, rounded half to even. -/
def scaledTo (num den : Nat) (e : Int) : Nat :=
  if 0 ≤ e then roundHalfEven num (den * Nat.pow 2 e.toNat)
  else roundHalfEven (num * Nat.pow 2 (-e).toNat) den

/-- The exponent at which a fraction has 53 binary digits, bounded below. -/
def exponentOf (num den : Nat) : Int :=
  let guess : Int := (num.log2 : Int) - den.log2 - 52
  let tooMany : Bool :=
    if 0 ≤ guess then num < den * Nat.pow 2 (guess.toNat + 52)
    else num * Nat.pow 2 (-guess).toNat < den * Nat.pow 2 52
  max minExponent (if tooMany then guess - 1 else guess)

/-- The double nearest a fraction; none beyond the greatest double. -/
def nearest (num den : Nat) : Option Magnitude :=
  if num = 0 then some zero
  else
    let e := exponentOf num den
    let m := scaledTo num den e
    let r : Magnitude := if m = Nat.pow 2 53 then ⟨Nat.pow 2 52, e + 1⟩ else ⟨m, e⟩
    if maxExponent < r.exponent then none else some r

/-- A product, rounded. -/
def mul (a b : Magnitude) : Option Magnitude :=
  nearest (a.fraction.1 * b.fraction.1) (a.fraction.2 * b.fraction.2)

/-- A quotient by a number other than zero, rounded. -/
def div (a b : Magnitude) : Option Magnitude :=
  nearest (a.fraction.1 * b.fraction.2) (a.fraction.2 * b.fraction.1)

/-! ## Reading decimals -/

/-- The double nearest `digits · 10 ^ exponent`. -/
def ofDecimal (digits : Nat) (exponent : Int) : Option Magnitude :=
  if digits = 0 then some zero
  else
    let top : Int := (digits.log2 : Int) / 3 + 1 + exponent
    if top < -400 then some zero
    else if 400 + (digits.log2 : Int) < exponent then none
    else if 0 ≤ exponent then nearest (digits * Nat.pow 10 exponent.toNat) 1
    else nearest digits (Nat.pow 10 (-exponent).toNat)

/-- The double nearest a power of ten up to `10 ^ 308`. -/
def powerOfTen (k : Nat) : Magnitude := (nearest (Nat.pow 10 k) 1).getD zero

/-- Divide by `10 ^ k`, in steps of at most `10 ^ 308`. -/
def divTen (m : Magnitude) (k : Nat) : Option Magnitude :=
  if m.significand = 0 then some m
  else if k ≤ 308 then m.div (powerOfTen k)
  else (m.div (powerOfTen 308)).bind fun r => divTen r (k - 308)
termination_by k

/-- Digits rounded to a double and then scaled by a rounded power of ten; none beyond the range. -/
def ofScaled (digits : Nat) (exponent : Int) : Option Magnitude :=
  (nearest digits 1).bind fun m =>
    if 0 ≤ exponent then
      if exponent.toNat ≤ 308 then m.mul (powerOfTen exponent.toNat)
      else if m.significand = 0 then some m
      else none
    else divTen m (-exponent).toNat

/-! ## Shortest decimals -/

/-- The number of decimal digits; one for zero. -/
def digitCount (n : Nat) : Nat := (Nat.toDigits 10 n).length

/-- The power of ten of the first digit of a fraction above zero. -/
def firstDigit (num den : Nat) : Int :=
  if den ≤ num then (digitCount (num / den) : Int) - 1
  else -(digitCount ((den + num - 1) / num - 1) : Int)

/-- A fraction divided by a power of ten. -/
def overTen (num den : Nat) (t : Int) : Nat × Nat :=
  if 0 ≤ t then (num, den * Nat.pow 10 t.toNat) else (num * Nat.pow 10 (-t).toNat, den)

/-- Whether `low < n < high` over a common denominator, ends included if `closed`. -/
def within (closed : Bool) (n low high : Nat) : Bool :=
  if closed then low ≤ n && n ≤ high else low < n && n < high

/-- On the decimal grid `10 ^ t`: the neighbour of the size that reads back, the nearer one
first. -/
def gridPoint (m : Magnitude) (t : Int) : Option Nat :=
  let closed := m.significand % 2 == 0
  let gap := if m.significand = Nat.pow 2 52 ∧ minExponent < m.exponent then 1 else 2
  let unit : Magnitude := ⟨1, m.exponent - 2⟩
  let (un, ud) := overTen unit.fraction.1 unit.fraction.2 t
  let mid := 4 * m.significand * un
  let low := (4 * m.significand - gap) * un
  let high := (4 * m.significand + 2) * un
  let a := mid / ud
  let r := mid % ud
  let below := within closed (a * ud) low high
  let above := within closed ((a + 1) * ud) low high
  if below && above then
    some (if 2 * r < ud then a else if ud < 2 * r then a + 1 else a + a % 2)
  else if below then some a
  else if above then some (a + 1)
  else none

/-- The first of the grids from `10 ^ t` on, each ten times finer, that has a point reading back. -/
def firstGrid (m : Magnitude) : Nat → Int → Nat × Int
  | 0, t => ((gridPoint m t).getD 0, t)
  | fuel + 1, t =>
    match gridPoint m t with
    | some d => (d, t)
    | none => firstGrid m fuel (t - 1)

/-- Move a factor of ten from the digits to the power of ten. -/
def moveTen (d : Nat × Int) : Nat × Int :=
  if d.1 ≠ 0 ∧ d.1 % 10 = 0 then (d.1 / 10, d.2 + 1) else d

/-- The fewest digits that read back and their power of ten; zero is the digit zero. A grid point
may be a power of ten itself, hence the last step. -/
def shortest (m : Magnitude) : Nat × Int :=
  if m.significand = 0 then (0, 0)
  else
    let d := firstGrid m 17 (firstDigit m.fraction.1 m.fraction.2)
    (List.range 18).foldl (fun d _ => moveTen d) d

end Magnitude

namespace Binary64

/-- The double nearest a decimal. -/
def ofDecimal (negative : Bool) (digits : Nat) (exponent : Int) : Option Binary64 :=
  (Magnitude.ofDecimal digits exponent).map fun m => ⟨negative, m⟩

/-- Digits rounded first and scaled by a rounded power of ten. -/
def ofScaled (negative : Bool) (digits : Nat) (exponent : Int) : Option Binary64 :=
  (Magnitude.ofScaled digits exponent).map fun m => ⟨negative, m⟩

end Binary64

end ApiSurface
