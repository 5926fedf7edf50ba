import ApiSurface.Artifact.Outcome
import ApiSurface.Surface

/-!
# Tasks

A task reads its source units, generates its artifacts and settles them. Tasks share nothing.

* `TaskSettings.generate`: the surface of a task and its artifacts, before anything is written;
* `TaskSettings.run`, `TaskReport`: one task from its sources to its files;
* `runBatch`: several tasks; a failure of one does not stop the others.
-/

namespace ApiSurface

/-- What a task has to report. -/
structure TaskReport where
  task : String
  emitter : String
  controllers : Nat
  requests : Nat
  declarations : Nat
  outcomes : List Outcome
  notes : List Note
  streamed : String

/-- Whether some file is not what its artifact says. -/
def TaskReport.hasDrift (r : TaskReport) : Bool := r.outcomes.any Outcome.isDrift

/-- A surface, its artifacts, and the notes taken on the way. -/
structure Generated where
  surface : Surface
  artifacts : List Artifact
  notes : List Note

namespace TaskSettings

/-- The surface of a task and its artifacts; the types are read first. -/
def generate (t : TaskSettings) (s : Surroundings) (hidden : Bool) (root : String) :
    Action Generated := do
  let types ← readUnits s hidden root t.types
  let controllers ← readUnits s hidden root t.controllers
  let r := ApiSurface.generate t.framework t.emitter types controllers
  let (surface, artifacts) ← Action.ofExcept r.result
  return ⟨surface, artifacts, r.notes⟩

/-- What a task does with its artifacts: some emitters stream what others write. -/
def effectiveMode (t : TaskSettings) (mode : Mode) : Mode :=
  if mode = .write ∧ t.emitter.streams then .stdout else mode

/-- What a task reports. -/
def report (t : TaskSettings) (g : Generated) (s : Settled) : TaskReport :=
  ⟨t.name, t.emitter.kind, g.surface.controllers.length, g.surface.requestCount,
    g.surface.catalog.size, s.outcomes, g.notes, s.streamed⟩

/-- Run a task. -/
def run (t : TaskSettings) (s : Surroundings) (hidden : Bool) (root : String) (mode : Mode) :
    Action TaskReport := do
  let g ← t.generate s hidden root
  let settled ← settleAll root (t.effectiveMode mode) g.artifacts
  return t.report g settled

end TaskSettings

/-- Run tasks one after another; each has its name and its report or failure. -/
def runBatch (tasks : List TaskSettings) (s : Surroundings) (hidden : Bool) (root : String)
    (mode : Mode) : Action (List (String × Except Failure TaskReport)) :=
  Action.forAll (fun t => do return (t.name, ← (t.run s hidden root mode).attempt)) tasks

end ApiSurface
