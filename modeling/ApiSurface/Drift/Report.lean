import ApiSurface.Drift.Script

/-!
# Drift reports

What differs between a file and the text that would replace it, line by line.

* `splitKept`: the lines of a text with their line breaks;
* `groups`: the changes of a script with up to three unchanged lines around them;
* `report`: the groups as text, below a header.
-/

namespace ApiSurface.Drift

/-! ## Lines -/

/-- Put a character in front of the first line. -/
def consKept (c : Char) : List (List Char) → List (List Char)
  | [] => [[c]]
  | l :: ls => (c :: l) :: ls

/-- A line ends behind a line feed, a carriage return, or both. -/
def splitKept : List Char → List (List Char)
  | [] => []
  | '\n' :: r => ['\n'] :: splitKept r
  | '\r' :: '\n' :: r => ['\r', '\n'] :: splitKept r
  | '\r' :: r => ['\r'] :: splitKept r
  | c :: r => consKept c (splitKept r)

/-- The lines of a text with their line breaks. -/
def keptLines (s : String) : List String := (splitKept s.toList).map String.ofList

/-! ## Groups -/

/-- What happens to a line. -/
inductive Mark
  | kept
  | removed
  | added
deriving DecidableEq, Repr

/-- The sign of a mark. -/
def Mark.sign : Mark → Char
  | kept => ' '
  | removed => '-'
  | added => '+'

/-- Lines with their marks. -/
abbrev Group : Type := List (Mark × String)

/-- Lines with one mark. -/
def marked (m : Mark) (ls : List String) : Group := ls.map fun l => (m, l)

/-- The number of unchanged lines shown around changes. -/
def contextSize : Nat := 3

/-- The last lines before a change. -/
def lastLines (ls : List String) : List String := ls.drop (ls.length - contextSize)

/-- The groups of changes, the first of which has been started. -/
def groupsFrom (started : Group) : List Change → List Group
  | [] => []
  | [c] =>
    [started ++ marked .removed c.removed ++ marked .added c.added ++
      marked .kept (c.kept.take contextSize)]
  | c :: cs =>
    let g := started ++ marked .removed c.removed ++ marked .added c.added
    if 2 * contextSize < c.kept.length then
      (g ++ marked .kept (c.kept.take contextSize)) ::
        groupsFrom (marked .kept (lastLines c.kept)) cs
    else groupsFrom (g ++ marked .kept c.kept) cs

/-- The groups of a script. -/
def groups (s : Script) : List Group := groupsFrom (marked .kept (lastLines s.kept)) s.changes

/-! ## Text -/

/-- Whether a line ends with a line break. -/
def endsLine (l : String) : Bool :=
  match l.toList.getLast? with
  | some c => c == '\n' || c == '\r'
  | none => false

/-- A line behind its sign, with a line break if it has none. -/
def lineText (l : Mark × String) : String :=
  String.singleton l.1.sign ++ l.2 ++ (if endsLine l.2 then "" else "\n")

/-- The text of a group. -/
def groupText (g : Group) : String := String.join (g.map lineText)

/-- What stands between two groups. -/
def separator : String := "...\n"

/-- What stands above the groups. -/
def heading (path : String) : String :=
  "--- " ++ path ++ " (on disk)\n+++ " ++ path ++ " (generated)\n"

/-- How a file differs from the text that would replace it. -/
def report (path current generated : String) : String :=
  let script := scriptOf (keptLines current) (keptLines generated)
  heading path ++ separator.intercalate ((groups script).map groupText)

end ApiSurface.Drift
