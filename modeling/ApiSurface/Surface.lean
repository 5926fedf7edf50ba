import ApiSurface.Client.Emit
import ApiSurface.Document.Emit
import ApiSurface.Endpoint.Extract

/-!
# API surfaces

The controllers and the catalog of a task, and what is emitted from them.

* `declaringUnits`: the units whose declarations count, each file once;
* `extractSurface`: controllers and catalog of source units;
* `emitArtifacts`, `generate`: the artifacts of a surface.
-/

namespace ApiSurface

/-- The controllers and the declarations of a task. -/
structure Surface where
  controllers : List Controller
  catalog : Catalog

/-- The number of requests of a surface. -/
def Surface.requestCount (s : Surface) : Nat := (s.controllers.flatMap (·.requests)).length

/-- The units read for types, and those read for controllers from other files. -/
def declaringUnits (types controllers : List SourceUnit) : List SourceUnit :=
  types ++ controllers.filter fun u => !(types.map (·.path)).contains u.path

/-- The surface of the units read for types and of those read for controllers. -/
def extractSurface (framework : Framework) (types controllers : List SourceUnit) :
    Attempt Surface := do
  let catalog ← Attempt.ofNoted (Catalog.build (entriesOf (declaringUnits types controllers)))
  let found ← extractControllers framework.convention controllers
  return ⟨found, catalog⟩

/-- The artifacts of an emitter. -/
def emitArtifacts (e : EmitterSettings) (s : Surface) : Noted (List Artifact) :=
  match e with
  | .client settings => Client.emit settings s.controllers s.catalog
  | .document settings => Document.emit settings s.controllers s.catalog

/-- The surface of source units and its artifacts. -/
def generate (framework : Framework) (e : EmitterSettings) (types controllers : List SourceUnit) :
    Attempt (Surface × List Artifact) := do
  let s ← extractSurface framework types controllers
  let artifacts ← Attempt.ofNoted (emitArtifacts e s)
  return (s, artifacts)

end ApiSurface
