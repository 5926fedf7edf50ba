import ApiSurface.Json.Reader
import ApiSurface.Source.Codec
import ApiSurface.Source.Matching

/-!
# Reading source units

* `SourceUnit.ofBytes`: the unit in a file;
* `readUnits`: the units in the files that patterns select, in the order of their paths.
-/

namespace ApiSurface

/-- Bytes that are text. -/
def textOfBytes (bytes : ByteArray) : Except Failure String :=
  match String.fromUTF8? bytes with
  | some s => .ok s
  | none => .error (.disk "stream did not contain valid UTF-8")

/-- A unit without a path has the one of its file below the root. -/
def SourceUnit.located (below : List String) (u : SourceUnit) : SourceUnit :=
  if u.path.isEmpty then { u with path := "/".intercalate below } else u

/-- The unit in a file at a path. -/
def SourceUnit.ofBytes (path : String) (bytes : ByteArray) : Except Failure SourceUnit := do
  let text ← textOfBytes bytes
  match (Json.read? text).bind SourceUnit.ofJson? with
  | some u => return u
  | none => throw (.unreadableUnit path "not a source unit")

/-- The unit in a file below the root. -/
def readUnit (root : String) (below : List String) : Action SourceUnit := do
  let path := pathBelow root below
  let bytes ← Action.demand (.read path) fun r => .disk r.message
  let u ← Action.ofExcept (SourceUnit.ofBytes path bytes)
  return u.located below

/-- The units in the files that patterns select. -/
def readUnits (s : Surroundings) (hidden : Bool) (root : String) (patterns : List String) :
    Action (List SourceUnit) := do
  Action.forAll (readUnit root) (← matchingFiles s hidden root patterns)

end ApiSurface
