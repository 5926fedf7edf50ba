import ApiSurface.Dict
import ApiSurface.Disk.Action
import ApiSurface.Path

/-!
# Disks as values

* `Node`: a file with its bytes, or a directory with its entries in the order of their names;
* `Node.get?`, `Node.put`, `Node.erase`: what stands at a place, and changes there;
* `Faults`: what goes wrong on a disk for reasons of its own;
* `Disk`: a tree of files, the working directory, and the names of new files;
* `Disk.answer`: how a disk answers a call, and what becomes of it.
-/

namespace ApiSurface

open ApiSurface.Path (Component)

/-- A file or a directory. -/
inductive Node
  | file (contents : ByteArray)
  | directory (entries : List (String × Node))
deriving Inhabited

namespace Node

/-- An empty directory. -/
def empty : Node := directory []

/-- Whether it is a directory. -/
def isDirectory : Node → Bool
  | directory _ => true
  | file _ => false

/-- What stands at a place below a node. -/
def get? : Node → List String → Option Node
  | n, [] => some n
  | directory es, k :: place =>
    match Dict.get? es k with
    | some n => n.get? place
    | none => none
  | file _, _ :: _ => none

/-- A node at a place. It is left out if a file is in the way, or a directory is missing. -/
def put (new : Node) : List String → Node → Node
  | [], _ => new
  | [k], directory es => directory (Dict.insert k new es)
  | k :: place, directory es =>
    match Dict.get? es k with
    | some n => directory (Dict.insert k (put new place n) es)
    | none => directory es
  | _ :: _, file b => file b

/-- The node without what stands at a place. -/
def erase : List String → Node → Node
  | [], n => n
  | [k], directory es => directory (es.filter fun e => e.1 ≠ k)
  | k :: place, directory es =>
    match Dict.get? es k with
    | some n => directory (Dict.insert k (erase place n) es)
    | none => directory es
  | _ :: _, file b => file b

mutual

/-- The files below a node, with their places. -/
def files : Node → List (List String × ByteArray)
  | file b => [([], b)]
  | directory es => filesOf es

/-- The files below entries, with their places. -/
def filesOf : List (String × Node) → List (List String × ByteArray)
  | [] => []
  | (k, n) :: es => (n.files.map fun p => (k :: p.1, p.2)) ++ filesOf es

end

end Node

/-- What goes wrong on a disk for reasons of its own. Whether something may be read is settled;
whether something can be changed may depend on what is on the disk. -/
structure Faults where
  /-- Why a call that reads is refused. -/
  reading : Call → Option String
  /-- Why a call that changes something is refused. -/
  changing : Node → Call → Option String
  /-- Why there can be no new directory at a place. -/
  making : List String → Option String
  /-- What is left in a new file when it cannot be filled. -/
  torn : String → ByteArray

/-- Nothing goes wrong. -/
def Faults.none : Faults :=
  ⟨fun _ => .none, fun _ _ => .none, fun _ => .none, fun _ => .empty⟩

/-- A disk: its files, the place of the working directory, what goes wrong, and the name of a new
file in a directory with given names. -/
structure Disk where
  root : Node
  here : List String
  faults : Faults
  newName : List String → String
  newName_not_mem : ∀ names, newName names ∉ names

namespace Disk

/-- A name that is longer than all given ones together. -/
def longName (names : List String) : String := ".tmp" ++ names.foldr (· ++ ·) ""

theorem length_longName (names : List String) :
    (longName names).length = 4 + (names.foldr (· ++ ·) "").length :=
  String.length_append ".tmp" _

theorem length_le_foldr {s : String} {names : List String} (h : s ∈ names) :
    s.length ≤ (names.foldr (· ++ ·) "").length := by
  induction names with
  | nil => cases h
  | cons n names ih =>
    rw [List.foldr_cons, String.length_append]
    rcases List.mem_cons.mp h with rfl | h
    · omega
    · have := ih h
      omega

theorem longName_not_mem (names : List String) : longName names ∉ names := by
  intro h
  have hle := length_le_foldr h
  rw [length_longName] at hle
  omega

/-- A disk that refuses nothing without need. -/
def ofTree (root : Node) (here : List String) : Disk :=
  ⟨root, here, .none, longName, longName_not_mem⟩

/-! ## Places -/

/-- The greatest number of bytes in a name. -/
def maxName : Nat := 255

/-- Whether a name can stand in a directory. -/
def isName (s : String) : Bool := s.utf8ByteSize ≤ maxName

/-- Whether a text can be a path at all. -/
def isPath (s : String) : Bool := !s.toList.contains '\x00'

/-- Follow the components of a path from a place on. All but the last must lead into directories;
the last may lead to nothing. -/
def follow (root : Node) : List Component → List String → Except Refusal (List String)
  | [], place => .ok place
  | .root :: cs, _ => follow root cs []
  | .here :: cs, place => follow root cs place
  | .up :: cs, place =>
    match root.get? place with
    | some (.directory _) => follow root cs place.dropLast
    | some (.file _) => .error .notDirectory
    | none => .error .missing
  | .name k :: cs, place =>
    match root.get? place with
    | some (.directory _) => if isName k then follow root cs (place ++ [k]) else .error .invalidName
    | some (.file _) => .error .notDirectory
    | none => .error .missing

/-- The place that a path leads to; there may be nothing at it. -/
def place (d : Disk) (path : String) : Except Refusal (List String) :=
  if isPath path then follow d.root (Path.components path) d.here else .error .invalidName

/-- Whether a path can only be one of a directory. -/
def endsInDirectory (path : String) : Bool :=
  match path.toList.reverse with
  | '/' :: _ => true
  | '.' :: '/' :: _ => true
  | _ => false

/-- What a path leads to. -/
def look (d : Disk) (path : String) : Except Refusal (List String × Node) :=
  if path.isEmpty then .error .missing
  else do
    let place ← d.place path
    match d.root.get? place with
    | none => .error .missing
    | some (.file b) => if endsInDirectory path then .error .notDirectory else .ok (place, .file b)
    | some n => .ok (place, n)

/-! ## Answers -/

/-- The bytes of a file. -/
def read (d : Disk) (path : String) : Except Refusal ByteArray := do
  match ← d.look path with
  | (_, .file b) => .ok b
  | (_, .directory _) => .error .isDirectory

/-- What is in a directory. -/
def list (d : Disk) (path : String) : Except Refusal (List Listed) := do
  match ← d.look path with
  | (_, .file _) => .error .notDirectory
  | (_, .directory es) => .ok (es.map fun e => ⟨e.1, e.2.isDirectory⟩)

/-- Make the directories along a path, as far as that goes. -/
def withDirectories (faults : Faults) :
    List Component → List String → Node → Except Refusal Unit × Node
  | [], _, root => (.ok (), root)
  | .root :: cs, _, root => withDirectories faults cs [] root
  | .here :: cs, place, root => withDirectories faults cs place root
  | .up :: cs, place, root => withDirectories faults cs place.dropLast root
  | .name k :: cs, place, root =>
    match root.get? (place ++ [k]) with
    | some (.directory _) => withDirectories faults cs (place ++ [k]) root
    | some (.file _) => (.error .notDirectory, root)
    | none =>
      match faults.making (place ++ [k]) with
      | some text => (.error (.other text), root)
      | none =>
        if isName k then
          withDirectories faults cs (place ++ [k]) (Node.put .empty (place ++ [k]) root)
        else (.error .invalidName, root)

/-- Make the directories along a path. -/
def makeDirectories (d : Disk) (path : String) : Except Refusal Unit × Disk :=
  if isPath path then
    let made := withDirectories d.faults (Path.components path) d.here d.root
    (made.1, { d with root := made.2 })
  else (.error .invalidName, d)

/-- Make an empty file with a new name in a directory. -/
def createIn (d : Disk) (directory : String) : Except Refusal Temporary × Disk :=
  match d.look directory with
  | .error e => (.error e, d)
  | .ok (_, .file _) => (.error .notDirectory, d)
  | .ok (place, .directory es) =>
    let name := d.newName (es.map (·.1))
    (.ok ⟨directory, name⟩, { d with root := Node.put (.file .empty) (place ++ [name]) d.root })

/-- The place of a new file. -/
def placeOf (d : Disk) (file : Temporary) : Except Refusal (List String) := do
  return (← d.place file.directory) ++ [file.name]

/-- The disk with other bytes in a new file. -/
def filled (d : Disk) (file : Temporary) (contents : ByteArray) : Disk :=
  match d.placeOf file with
  | .error _ => d
  | .ok place => { d with root := Node.put (.file contents) place d.root }

/-- Put a new file in the place of what a path leads to. Another directory does not give way. -/
def move (d : Disk) (file : Temporary) (path : String) : Except Refusal Unit × Disk :=
  if path.isEmpty then (.error .missing, d)
  else match d.placeOf file, d.place path with
  | .error e, _ => (.error e, d)
  | _, .error e => (.error e, d)
  | .ok source, .ok place =>
    match d.root.get? source, d.root.get? place.dropLast, d.root.get? place with
    | some (.file _), some (.directory _), some (.directory _) => (.error .isDirectory, d)
    | some (.file b), some (.directory _), _ =>
      if endsInDirectory path then (.error .notDirectory, d)
      else (.ok (), { d with root := Node.put (.file b) place (Node.erase source d.root) })
    | some (.file _), some (.file _), _ => (.error .notDirectory, d)
    | _, _, _ => (.error .missing, d)

/-- Let a new file go away. -/
def discard (d : Disk) (file : Temporary) : Except Refusal Unit × Disk :=
  match d.placeOf file with
  | .error e => (.error e, d)
  | .ok place =>
    match d.root.get? place with
    | some (.file _) => (.ok (), { d with root := Node.erase place d.root })
    | some (.directory _) => (.error .isDirectory, d)
    | none => (.error .missing, d)

/-- Write bytes into a file, which is made if it is missing. -/
def overwrite (d : Disk) (path : String) (contents : ByteArray) : Except Refusal Unit × Disk :=
  if path.isEmpty then (.error .missing, d)
  else match d.place path with
  | .error e => (.error e, d)
  | .ok place =>
    match d.root.get? place.dropLast, d.root.get? place with
    | some (.directory _), some (.directory _) => (.error .isDirectory, d)
    | some (.directory _), _ =>
      if endsInDirectory path then (.error .isDirectory, d)
      else (.ok (), { d with root := Node.put (.file contents) place d.root })
    | some (.file _), _ => (.error .notDirectory, d)
    | none, _ => (.error .missing, d)

/-- Why a disk refuses a call for reasons of its own. -/
def fault (d : Disk) (c : Call) : Option String :=
  if c.isReading then d.faults.reading c else d.faults.changing d.root c

/-- What a refused call leaves: part of the contents may be in a new file. -/
def afterFault (d : Disk) : Call → Disk
  | .fill file contents => d.filled file (d.faults.torn contents)
  | _ => d

/-- How a disk answers a call, and what becomes of it. -/
def answer (c : Call) (d : Disk) : c.Answer × Disk :=
  match d.fault c with
  | some text => (.error (.other text), d.afterFault c)
  | none =>
    match c with
    | .locate path => ((d.look path).map (·.1), d)
    | .list path => (d.list path, d)
    | .read path => (d.read path, d)
    | .makeDirectories path => d.makeDirectories path
    | .createIn directory => d.createIn directory
    | .fill file contents => ((d.placeOf file).map fun _ => (), d.filled file contents.toUTF8)
    | .move file path => d.move file path
    | .discard file => d.discard file
    | .overwrite path contents => d.overwrite path contents

/-- A call that reads leaves the disk as it is. -/
theorem answer_snd_of_isReading {c : Call} (h : c.isReading) (d : Disk) : (d.answer c).2 = d := by
  unfold answer
  cases c with
  | locate | list | read => split <;> rfl
  | makeDirectories | createIn | fill | move | discard | overwrite => cases h

end Disk

/-- The result of an action on a disk, and what becomes of the disk. -/
def Action.on {α : Type} (m : Action α) (d : Disk) : Except Failure α × Disk :=
  m.run (fun c d => d.answer c) d

end ApiSurface
