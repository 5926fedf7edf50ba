import ApiSurface.Artifact
import ApiSurface.Checksum
import ApiSurface.Disk.Action
import ApiSurface.Drift.Report
import ApiSurface.Path
import ApiSurface.Source.Reading

/-!
# Artifacts and their files

* `Mode`: whether artifacts are written, compared with their files, or streamed;
* `Outcome`: what became of an artifact;
* `writeArtifact`, `checkArtifact`, `streamed`: one artifact on disk, many as one text;
* `settleAll`: all artifacts in their order, up to the first failure.

A file with the checksum of its artifact is left alone. Any other is replaced at once by a complete
new one, which is written beside it first.
-/

namespace ApiSurface

/-- What is done with artifacts. -/
inductive Mode
  | write
  | check
  | stdout
deriving DecidableEq, Repr

/-- What became of an artifact, or, where files are only compared, how its file differs. -/
inductive Status
  | created
  | updated
  | unchanged
  | streamed
  | missing
  | drifted (diff : String)
deriving DecidableEq, Repr

/-- An artifact's file, what became of it, and the checksum of the artifact. -/
structure Outcome where
  path : String
  status : Status
  checksum : Checksum
deriving DecidableEq, Repr

/-- Whether a file is not what its artifact says. -/
def Outcome.isDrift (o : Outcome) : Bool :=
  match o.status with
  | .missing => true
  | .drifted _ => true
  | _ => false

/-- The file of an artifact: below the root, unless its path is absolute. -/
def Artifact.destination (root : String) (a : Artifact) : String := Path.join root a.path

/-- The checksum of an artifact. -/
def Artifact.checksum (a : Artifact) : Checksum := Checksum.ofText a.contents

/-! ## Files -/

/-- The bytes of a file, if there is one. -/
def existing (path : String) : Action (Option ByteArray) :=
  .call (.read path) fun r =>
    match r with
    | .ok bytes => .pure (some bytes)
    | .error .missing => .pure none
    | .error r => .fail (.disk r.message)

/-- Give up a new file, whether or not it goes away, and fail. -/
def abandon (file : Temporary) (e : Failure) : Action Unit := do
  let _ ← Action.ask (.discard file)
  Action.fail e

/-- Fill a new file, and put it in the place of what a path leads to. -/
def install (file : Temporary) (path contents : String) : Action Unit := do
  match ← Action.ask (.fill file contents) with
  | .error r => abandon file (.disk r.message)
  | .ok _ =>
    match ← Action.ask (.move file path) with
    | .error r => abandon file (.notReplaced path r.message)
    | .ok _ => return ()

/-- Put a complete file in its place, in a directory that is made if it is missing. -/
def persist (path contents : String) : Action Unit := do
  let directory := Path.parent path
  let _ ← Action.demand (.makeDirectories directory) fun r => .disk r.message
  let file ← Action.demand (.createIn directory) fun r => .disk r.message
  install file path contents

/-- Write an artifact unless its file has the same checksum. -/
def writeArtifact (root : String) (a : Artifact) : Action Outcome := do
  let path := a.destination root
  match ← existing path with
  | none =>
    persist path a.contents
    return ⟨path, .created, a.checksum⟩
  | some bytes =>
    if Checksum.ofBytes bytes = a.checksum then return ⟨path, .unchanged, a.checksum⟩
    else
      persist path a.contents
      return ⟨path, .updated, a.checksum⟩

/-- Compare an artifact with its file. -/
def checkArtifact (root : String) (a : Artifact) : Action Outcome := do
  let path := a.destination root
  match ← existing path with
  | none => return ⟨path, .missing, a.checksum⟩
  | some bytes =>
    if Checksum.ofBytes bytes = a.checksum then return ⟨path, .unchanged, a.checksum⟩
    else
      let again ← Action.demand (.read path) fun r => .disk r.message
      let current ← Action.ofExcept (textOfBytes again)
      return ⟨path, .drifted (Drift.report a.path current a.contents), a.checksum⟩

/-! ## Streams -/

/-- Outcomes, and the text that was streamed. -/
structure Settled where
  outcomes : List Outcome
  streamed : String
deriving DecidableEq, Repr

/-- Artifacts as one text. -/
def streamed (artifacts : List Artifact) : Settled :=
  ⟨artifacts.map fun a => ⟨a.path, .streamed, a.checksum⟩,
    String.join (artifacts.map (·.contents))⟩

/-- Write, compare or stream artifacts in their order, up to the first failure. -/
def settleAll (root : String) (mode : Mode) (artifacts : List Artifact) : Action Settled :=
  match mode with
  | .write => return ⟨← Action.forAll (writeArtifact root) artifacts, ""⟩
  | .check => return ⟨← Action.forAll (checkArtifact root) artifacts, ""⟩
  | .stdout => return streamed artifacts

end ApiSurface
