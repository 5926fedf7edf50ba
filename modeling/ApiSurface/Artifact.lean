/-!
# Artifacts

* `Artifact`: a complete text and the file it is meant for.
-/

namespace ApiSurface

/-- A complete text, and its file below the root unless the path is absolute. -/
structure Artifact where
  path : String
  contents : String
deriving DecidableEq, Repr

end ApiSurface
