/-!
# Failures

The conditions that end a run, and their wording.

* `Failure`: what went wrong;
* `Failure.message`: what is said about it.
-/

namespace ApiSurface

/-- Why a run ended. Where a lower layer refused, `cause` is what it had to say. -/
inductive Failure
  | unknownArgument (context found : String) (objectAllowed : Bool)
  | missingPathField (controller method parameter : String)
  | unreadableUnit (path cause : String)
  | badPattern (pattern cause : String)
  | unknownTask (name : String)
  | badSettings (cause : String)
  | noItem (key : String)
  | disk (cause : String)
  | notReplaced (path cause : String)
  | walk (cause : String)
  | toml (cause : String)
deriving DecidableEq, Repr

/-- The wording of a failure. -/
def Failure.message : Failure → String
  | unknownArgument context found objectAllowed =>
    "unknown argument type for " ++ context ++ ": expected a string, an array of strings" ++
      (if objectAllowed then " or an object with a path field" else "") ++ ", found " ++ found
  | missingPathField controller method parameter =>
    "path parameter '" ++ parameter ++ "' of " ++ controller ++ "." ++ method ++
      " must name the path field it binds"
  | unreadableUnit path cause => "Failed to parse source unit " ++ path ++ ": " ++ cause
  | badPattern pattern cause => "Invalid source pattern '" ++ pattern ++ "': " ++ cause
  | unknownTask name => "No configuration task named '" ++ name ++ "'"
  | badSettings cause => "Configuration error: " ++ cause
  | noItem key => "Configuration key without an item: " ++ key
  | disk cause => "IO error: " ++ cause
  | notReplaced path cause => "Failed to write " ++ path ++ ": " ++ cause
  | walk cause => "Source walk error: " ++ cause
  | toml cause => "TOML error: " ++ cause

end ApiSurface
