import ApiSurface.Source.Repository

/-!
# Matching files

The files below a directory that patterns select.

* `Level`: what the directories on the way down leave out;
* `Walk.admits`: whether an entry is taken, and a directory entered;
* `matchingFiles`: the files that are taken, in the order of their paths.
-/

namespace ApiSurface

open ApiSurface.Glob (Rule Selection Verdict)

/-! ## Levels -/

/-- A directory on the way down: its ignore file, and the excludes of the repository if it is the
top of one. -/
structure Level where
  own : Exceptions
  repository : Option Exceptions

/-- The level of a directory with these entries. -/
def levelAt (dir : String) (entries : List Listed) : Action Level := do
  let own ← exceptionsAt dir
  if isRepository entries then return ⟨own, some (← repositoryExceptions dir)⟩
  else return ⟨own, none⟩

/-- The directories above a place, the nearest first. -/
def above (place : List String) : List (List String) :=
  (List.range place.length).reverse.map fun n => place.take n

/-- A place as a whole path. -/
def absolutePath (place : List String) : String := "/" ++ "/".intercalate place

/-- The ignore file of a directory above the root. Nothing there may be misunderstood, not even the
excludes of a repository, which do not count so far down. -/
def exceptionsAbove (place : List String) : Action Exceptions := do
  let own ← exceptionsAt (absolutePath place)
  let repository ← repositoryExceptions (absolutePath place)
  if own.sound && repository.sound then return own else Action.fail (.walk "malformed glob")

/-! ## Walking -/

/-- What a walk goes by: the patterns, whether hidden entries count, the root as it was given and as
a whole path, the ignore files above it, the nearest first, and the excludes of the user. -/
structure Walk where
  selection : Selection
  hidden : Bool
  root : String
  top : String
  outer : List Exceptions
  personal : Exceptions

/-- Whether a name is hidden. -/
def isHidden (name : String) : Bool :=
  name.toList.head? = some '.' && name.toList.getLast? ≠ some '.'

/-- A path that begins with the root, as a whole path. -/
def Walk.wholePath (w : Walk) (path : String) : String :=
  Path.join w.top
    (if Path.isHere w.root then path
    else (Path.behind? (Path.withoutHere w.root) path).getD path)

/-- What the exceptions of all levels, the nearest first, say about a path: first the ignore files
from inside out, then the nearest repository, then the user, who has a say in repositories only. -/
def Walk.exceptionsVerdict (w : Walk) (levels : List Level) (isDirectory : Bool) (path : String) :
    Verdict :=
  (firstVerdict isDirectory path (levels.map (·.own))).orElse
    ((firstVerdict isDirectory (w.wholePath path) w.outer).orElse
      (match levels.findSome? (·.repository) with
      | some repository => firstVerdict isDirectory path [repository, w.personal]
      | none => .silent))

/-- Whether an entry of a directory is taken: the patterns decide, then the exceptions, then its
name. -/
def Walk.admits (w : Walk) (levels : List Level) (dir : String) (e : Listed) : Bool :=
  let path := Path.withoutHere (Path.join dir e.name)
  let selected := w.selection.verdict e.isDirectory (Path.seenFrom (Path.withoutHere w.root) path)
  match selected.orElse (w.exceptionsVerdict levels e.isDirectory path) with
  | .take => true
  | .leave => false
  | .silent => w.hidden || !isHidden e.name

/-- A path below the root. -/
def pathBelow (root : String) (below : List String) : String := below.foldl Path.join root

/-- The files that are taken below a directory. The fuel bounds how deep it goes. -/
def Walk.files (w : Walk) :
    (fuel : Nat) → List Level → List String → List Listed → Action (List (List String))
  | 0, _, _, _ => .pure []
  | fuel + 1, outer, below, entries => do
    let dir := pathBelow w.root below
    let inner ← levelAt dir entries
    let levels := inner :: outer
    let found ← Action.forAll (fun e => do
        let place := below ++ [e.name]
        if e.isDirectory then
          let inside ← Action.demand (.list (Path.join dir e.name)) fun r => .walk r.message
          w.files fuel levels place inside
        else .pure [place])
      (entries.filter (w.admits levels dir))
    return found.flatten

/-- A path cannot be longer than this, nor go deeper. -/
def maxDepth : Nat := 4096

/-- Places in the order of their names, one after another. -/
def sortPlaces (l : List (List String)) : List (List String) :=
  l.mergeSort fun a b => !decide (b < a)

/-- The root that stands for the standard input, which is no file. -/
def isStandardInput (root : String) : Bool := Path.components root == [.name "-"]

/-- The files below a root, or the root itself if it is a file. -/
def walkFrom (s : Surroundings) (hidden : Bool) (selection : Selection) (root : String) :
    Action (List (List String)) := do
  let top ← Action.demand (.locate root) fun r => .walk r.message
  match ← Action.ask (.list root) with
  | .ok entries => do
    let outer ← Action.forAll exceptionsAbove (above top)
    let personal ← personalExceptions s
    let walk := ⟨selection, hidden, root, absolutePath top, outer, personal⟩
    let found ← Walk.files walk maxDepth [] [] entries
    return sortPlaces found
  | .error .notDirectory => return [[]]
  | .error r => Action.fail (.walk r.message)

/-- The files below a root that patterns select, as places below it; no pattern selects nothing. -/
def matchingFiles (s : Surroundings) (hidden : Bool) (root : String) (patterns : List String) :
    Action (List (List String)) :=
  if patterns.isEmpty then .pure []
  else match Selection.ofPatterns patterns with
    | .error p => .fail (.badPattern p "malformed glob")
    | .ok selection =>
      if isStandardInput root then .pure [] else walkFrom s hidden selection root

end ApiSurface
