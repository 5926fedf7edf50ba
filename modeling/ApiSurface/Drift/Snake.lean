/-!
# Middle snakes

Where to cut two lists of lines in two so that a shortest edit script of the halves is one of the
whole: a search from both ends at once, along diagonals.

* `commonPrefix`: how many items two lists share in front;
* `middleSnake?`: the cut, as the number of items before it in either list.
-/

namespace ApiSurface.Drift

/-- How many items two lists share in front. -/
def commonPrefix : List String → List String → Nat
  | a :: as, b :: bs => if a = b then commonPrefix as bs + 1 else 0
  | _, _ => 0

/-- The furthest points of a search by diagonal; diagonal `k` is at index `k + origin`. -/
structure Frontier where
  origin : Nat
  points : Array Nat

namespace Frontier

/-- A search that has not started; it enters at diagonal one. -/
def start (size : Nat) : Frontier := ⟨size + 1, Array.replicate (2 * size + 3) 0⟩

/-- The furthest point on a diagonal. -/
def at_ (f : Frontier) (k : Int) : Nat := f.points.getD (k + f.origin).toNat 0

/-- Note the furthest point on a diagonal. -/
def set_ (f : Frontier) (k : Int) (x : Nat) : Frontier :=
  { f with points := f.points.setIfInBounds (k + f.origin).toNat x }

/-- Where a path of `d` edits enters diagonal `k`. -/
def entry (f : Frontier) (d k : Int) : Nat :=
  if k = -d ∨ (k ≠ d ∧ f.at_ (k - 1) < f.at_ (k + 1)) then f.at_ (k + 1) else f.at_ (k - 1) + 1

end Frontier

/-- The lists of a search, and how long they are. -/
structure Field where
  old : Array String
  new : Array String

namespace Field

/-- The difference of the lengths. -/
def delta (w : Field) : Int := (w.old.size : Int) - w.new.size

/-- Whether the searches meet on a forward step. -/
def meetsForward (w : Field) : Bool := w.delta % 2 ≠ 0

/-- How many items agree from a point on; the fuel bounds them. -/
def agreeing (w : Field) : (fuel x y : Nat) → Nat
  | 0, _, _ => 0
  | fuel + 1, x, y =>
    if x < w.old.size ∧ y < w.new.size ∧ w.old.getD x "" = w.new.getD y "" then
      agreeing w fuel (x + 1) (y + 1) + 1
    else 0

/-- How many items agree backwards, `x` and `y` items from the ends; the fuel bounds them. -/
def agreeingBack (w : Field) : (fuel x y : Nat) → Nat
  | 0, _, _ => 0
  | fuel + 1, x, y =>
    if x < w.old.size ∧ y < w.new.size ∧
        w.old.getD (w.old.size - 1 - x) "" = w.new.getD (w.new.size - 1 - y) "" then
      agreeingBack w fuel (x + 1) (y + 1) + 1
    else 0

/-- One diagonal forward: the searches have met, or the new frontier. -/
def forwardStep (w : Field) (d : Int) (back : Frontier) (front : Frontier) (k : Int) :
    Except (Nat × Nat) Frontier :=
  let x := front.entry d k
  let y := (x : Int) - k
  let reach := x + (if 0 ≤ y then w.agreeing w.old.size x y.toNat else 0)
  if w.meetsForward && (k - w.delta).natAbs ≤ d - 1 &&
      w.old.size ≤ reach + back.at_ (-(k - w.delta)) then
    .error (x, y.toNat)
  else .ok (front.set_ k reach)

/-- One diagonal backward: the searches have met, or the new frontier. -/
def backwardStep (w : Field) (d : Int) (front : Frontier) (back : Frontier) (k : Int) :
    Except (Nat × Nat) Frontier :=
  let x := back.entry d k
  let y := (x : Int) - k
  let step := if 0 ≤ y then w.agreeingBack w.old.size x y.toNat else 0
  if !w.meetsForward && (k - w.delta).natAbs ≤ d &&
      w.old.size ≤ x + step + front.at_ (-(k - w.delta)) then
    .error (w.old.size - (x + step), w.new.size - (y.toNat + step))
  else .ok (back.set_ k (x + step))

/-- The diagonals of a round, the highest first. -/
def diagonals (d : Nat) : List Int := (List.range (d + 1)).map fun (i : Nat) => (d : Int) - 2 * i

/-- Rounds with one more edit each until the searches meet. -/
def rounds (w : Field) : (fuel d : Nat) → (front back : Frontier) → Option (Nat × Nat)
  | 0, _, _, _ => none
  | fuel + 1, d, front, back =>
    match (diagonals d).foldlM (w.forwardStep d back) front with
    | .error cut => some cut
    | .ok front =>
      match (diagonals d).foldlM (w.backwardStep d front) back with
      | .error cut => some cut
      | .ok back => rounds w fuel (d + 1) front back

end Field

/-- Where to cut two lists in two. -/
def middleSnake? (old new : List String) : Option (Nat × Nat) :=
  let w : Field := ⟨old.toArray, new.toArray⟩
  let most := (w.old.size + w.new.size + 1) / 2 + 1
  w.rounds most 0 (Frontier.start most) (Frontier.start most)

end ApiSurface.Drift
