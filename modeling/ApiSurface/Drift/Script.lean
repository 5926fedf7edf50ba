import ApiSurface.Drift.Snake

/-!
# Edit scripts

How one list of lines becomes another.

* `Op`: a run of lines that is kept, removed or added; `oldLines` and `newLines` are what a script
  starts from and ends with;
* `conquer`: a shortest script, cut in two at middle snakes;
* `compacted`: changes moved as far down as repeated lines allow, neighbours of one kind merged;
* `Script`, `scriptOf`: the script as unchanged runs with changes between them.
-/

namespace ApiSurface.Drift

/-- A run of lines that is kept, removed or added. -/
inductive Op
  | keep (lines : List String)
  | remove (lines : List String)
  | add (lines : List String)
deriving DecidableEq, Repr

/-- The lines a run takes from the old text. -/
def Op.old : Op → List String
  | keep ls => ls
  | remove ls => ls
  | add _ => []

/-- The lines a run gives to the new text. -/
def Op.new : Op → List String
  | keep ls => ls
  | remove _ => []
  | add ls => ls

/-- The lines that a script starts from. -/
def oldLines (ops : List Op) : List String := ops.flatMap Op.old

/-- The lines that a script ends with. -/
def newLines (ops : List Op) : List String := ops.flatMap Op.new

/-- A run, unless it is empty. -/
def run (op : List String → Op) (ls : List String) : List Op := if ls.isEmpty then [] else [op ls]

/-! ## Shortest scripts -/

/-- A script from one list to another: common ends are kept, the rest is cut in two at a middle
snake. The fuel bounds the number of cuts below each other. -/
def conquer : (fuel : Nat) → (old new : List String) → List Op
  | 0, old, new => run .remove old ++ run .add new
  | fuel + 1, old, new =>
    let n := commonPrefix old new
    let old' := old.drop n
    let new' := new.drop n
    let m := commonPrefix old'.reverse new'.reverse
    let a := old'.take (old'.length - m)
    let b := new'.take (new'.length - m)
    let middle :=
      if a.isEmpty || b.isEmpty then run .remove a ++ run .add b
      else match middleSnake? a b with
        | none => run .remove a ++ run .add b
        | some (x, y) => conquer fuel (a.take x) (b.take y) ++ conquer fuel (a.drop x) (b.drop y)
    run .keep (old.take n) ++ middle ++ run .keep (old'.drop (old'.length - m))

/-! ## Compaction -/

/-- Put kept lines in front of a script, joining the kept lines it starts with. -/
def keepBefore (ls : List String) (ops : List Op) : List Op :=
  if ls.isEmpty then ops
  else match ops with
    | .keep ks :: rest => .keep (ls ++ ks) :: rest
    | _ => .keep ls :: ops

/-- Put kept lines behind a reversed script, joining the kept lines it ends with. -/
def keepAfter (ls : List String) (ops : List Op) : List Op :=
  if ls.isEmpty then ops
  else match ops with
    | .keep ks :: rest => .keep (ks ++ ls) :: rest
    | _ => .keep ls :: ops

/-- Added lines slide up while their last line equals the one above them: the kept lines left above,
last first, the added lines, and those that are now kept below. -/
def slideUp : (above added below : List String) → List String × List String × List String
  | [], added, below => ([], added, below)
  | x :: above, added, below =>
    if added.getLast? = some x then slideUp above (x :: added.dropLast) (x :: below)
    else (x :: above, added, below)

/-- Added lines slide down while their first line equals the one below them: the kept lines left
below, the added lines, and those that are now kept above. -/
def slideDown : (below added above : List String) → List String × List String × List String
  | [], added, above => ([], added, above)
  | x :: below, added, above =>
    if added.head? = some x then slideDown below (added.tail ++ [x]) (above ++ [x])
    else (x :: below, added, above)

/-- A place in a script: the runs before it, the last one first, a change, and the runs after it. -/
structure Place where
  before : List Op
  change : Op
  after : List Op

/-- Move a change up: added lines slide past kept ones, changes of the other kind are passed, and
changes of the same kind merged. -/
def shiftUp : (before : List Op) → (change : Op) → (after : List Op) → Place
  | [], change, after => ⟨[], change, after⟩
  | .keep [] :: before, change, after => shiftUp before change after
  | .keep ks :: before, .add ls, after =>
    let (above, ls, below) := slideUp ks.reverse ls []
    if above.isEmpty then shiftUp before (.add ls) (keepBefore below after)
    else ⟨.keep above.reverse :: before, .add ls, keepBefore below after⟩
  | .add ms :: before, .add ls, after => shiftUp before (.add (ms ++ ls)) after
  | .remove ms :: before, .remove ls, after => shiftUp before (.remove (ms ++ ls)) after
  | .remove ms :: before, .add ls, after => shiftUp before (.add ls) (.remove ms :: after)
  | .add ms :: before, .remove ls, after => shiftUp before (.remove ls) (.add ms :: after)
  | before, change, after => ⟨before, change, after⟩

/-- Move a change down, likewise. -/
def shiftDown : (before : List Op) → (change : Op) → (after : List Op) → Place
  | before, change, [] => ⟨before, change, []⟩
  | before, change, .keep [] :: after => shiftDown before change after
  | before, .add ls, .keep ks :: after =>
    let (below, ls, above) := slideDown ks ls []
    if below.isEmpty then shiftDown (keepAfter above before) (.add ls) after
    else ⟨keepAfter above before, .add ls, .keep below :: after⟩
  | before, .add ls, .add ms :: after => shiftDown before (.add (ls ++ ms)) after
  | before, .remove ls, .remove ms :: after => shiftDown before (.remove (ls ++ ms)) after
  | before, .add ls, .remove ms :: after => shiftDown (.remove ms :: before) (.add ls) after
  | before, .remove ls, .add ms :: after => shiftDown (.add ms :: before) (.remove ls) after
  | before, change, after => ⟨before, change, after⟩

/-- Move each change that a test selects up and then down; `before` has the runs that are done, the
last one first. The fuel bounds the number of runs. -/
def settle (selected : Op → Bool) : (fuel : Nat) → (before after : List Op) → List Op
  | 0, before, after => before.reverse ++ after
  | _ + 1, before, [] => before.reverse
  | fuel + 1, before, op :: after =>
    if selected op then
      let up := shiftUp before op after
      let down := shiftDown up.before up.change up.after
      settle selected fuel (down.change :: down.before) down.after
    else settle selected fuel (op :: before) after

/-- Whether a run removes lines. -/
def isRemoval : Op → Bool
  | .remove _ => true
  | _ => false

/-- Whether a run adds lines. -/
def isAddition : Op → Bool
  | .add _ => true
  | _ => false

/-- Enough steps to settle a script: no run is without a line. -/
def steps (ops : List Op) : Nat :=
  2 * (ops.length + (oldLines ops).length + (newLines ops).length) + 1

/-- A script with its removals and then its additions settled. -/
def compacted (ops : List Op) : List Op :=
  let ops := settle isRemoval (steps ops) [] ops
  settle isAddition (steps ops) [] ops

/-! ## Changes between unchanged runs -/

/-- Lines removed, lines added in their place, and the lines kept after them. -/
structure Change where
  removed : List String
  added : List String
  kept : List String
deriving DecidableEq, Repr

/-- The lines kept in front, and the changes. -/
structure Script where
  kept : List String
  changes : List Change
deriving DecidableEq, Repr

/-- Put a run in front of a script. -/
def Script.cons (op : Op) (s : Script) : Script :=
  match op with
  | .keep ls => ⟨ls ++ s.kept, s.changes⟩
  | .remove ls =>
    if ls.isEmpty then s
    else match s.kept, s.changes with
      | [], c :: cs => ⟨[], ⟨ls ++ c.removed, c.added, c.kept⟩ :: cs⟩
      | kept, cs => ⟨[], ⟨ls, [], kept⟩ :: cs⟩
  | .add ls =>
    if ls.isEmpty then s
    else match s.kept, s.changes with
      | [], c :: cs => ⟨[], ⟨c.removed, ls ++ c.added, c.kept⟩ :: cs⟩
      | kept, cs => ⟨[], ⟨[], ls, kept⟩ :: cs⟩

/-- Runs as changes between unchanged runs. -/
def Script.ofOps (ops : List Op) : Script := ops.foldr Script.cons ⟨[], []⟩

/-- The script from one list of lines to another. -/
def scriptOf (old new : List String) : Script :=
  Script.ofOps (compacted (conquer (old.length + new.length + 1) old new))

end ApiSurface.Drift
