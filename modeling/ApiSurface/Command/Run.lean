import ApiSurface.Command.Arguments
import ApiSurface.Settings.Load
import ApiSurface.Task

/-!
# Running commands

* `Printed`: what a command prints, and its exit code;
* `Command.run`: a command from its arguments to what it prints;
* `runArguments`: the same for arguments that may be misused.
-/

namespace ApiSurface

/-- An exit code, and what goes to the standard output and to the standard error. -/
structure Printed where
  code : Nat
  out : String
  err : String
deriving DecidableEq, Repr

/-- Lines of a text. -/
def textOfLines (ls : List String) : String := String.join (ls.map (· ++ "\n"))

/-- A failure that ends a command. -/
def fatal (context : String) (e : Failure) : Printed :=
  ⟨1, "", textOfLines ["❌ Error: " ++ context ++ e.message]⟩

/-- Go on with a result; a failure ends the command. -/
def orFatal {α : Type} (context : String) (m : Action α) (next : α → Action Printed) :
    Action Printed := do
  match ← m.attempt with
  | .ok a => next a
  | .error e => return fatal context e

/-! ## Tasks -/

/-- What is printed about the file of an artifact. -/
def Outcome.summary (mode : Mode) (o : Outcome) : String :=
  match o.status with
  | .created => "   ✨ created " ++ o.path ++ "\n"
  | .updated => "   📝 updated " ++ o.path ++ "\n"
  | .unchanged =>
    if mode = .check then "   ✅ " ++ o.path ++ "\n" else "   ✅ unchanged " ++ o.path ++ "\n"
  | .streamed => ""
  | .missing => "   ❌ missing " ++ o.path ++ "\n"
  | .drifted diff => "   ❌ out of date " ++ o.path ++ "\n" ++ diff

/-- The line with the counts of a task. -/
def TaskReport.headline (r : TaskReport) : String :=
  "📦 " ++ r.task ++ " (" ++ r.emitter ++ "): " ++ toString r.controllers ++ " controllers, " ++
    toString r.requests ++ " requests, " ++ toString r.declarations ++ " types"

/-- The number of warnings, if there are any. -/
def TaskReport.warnings (r : TaskReport) : String :=
  if Note.warningCount r.notes = 0 then ""
  else "   ⚠️  " ++ toString (Note.warningCount r.notes) ++ " warning(s)\n"

/-- What is printed about a task. -/
def TaskReport.summary (mode : Mode) (r : TaskReport) : String :=
  r.headline ++ "\n" ++ String.join (r.outcomes.map (Outcome.summary mode)) ++ r.warnings

/-- What is printed about a task that may have failed. -/
def resultSummary (mode : Mode) : String × Except Failure TaskReport → String
  | (_, .ok r) => r.summary mode
  | (name, .error e) => "❌ " ++ name ++ ": " ++ e.message ++ "\n"

/-- The reports among results. -/
def reportsOf (results : List (String × Except Failure TaskReport)) : List TaskReport :=
  results.filterMap fun p => p.2.toOption

/-- The exit code of a batch, and the line that closes it. -/
def closing (mode : Mode) (results : List (String × Except Failure TaskReport)) : Nat × String :=
  let failed := results.length - (reportsOf results).length
  if 0 < failed then (1, "\n❌ " ++ toString failed ++ " task(s) failed\n")
  else if mode = .check then
    if (reportsOf results).any TaskReport.hasDrift then
      (2, "\n❌ Generated files are out of date\n")
    else (0, "\n✅ No drift detected\n")
  else (0, "")

/-- What is printed about a batch. -/
def batchPrinted (mode : Mode) (results : List (String × Except Failure TaskReport)) : Printed :=
  ⟨(closing mode results).1, String.join ((reportsOf results).map (·.streamed)),
    String.join (results.map (resultSummary mode)) ++ (closing mode results).2⟩

/-- Run the selected tasks of the settings. -/
def runTasks (s : Surroundings) (file task : Option String) (mode : Mode) : Action Printed :=
  orFatal "loading configuration: " (Settings.load s file) fun settings =>
    orFatal "" (Action.ofExcept (settings.select task)) fun tasks => do
      if tasks.isEmpty then return ⟨0, "", "⚠️  No tasks configured\n"⟩
      else return batchPrinted mode (← runBatch tasks s false (settings.rootPath s.here) mode)

/-! ## Other commands -/

/-- Print the controllers below a root, and the notes about them. -/
def inspect (s : Surroundings) (root : String) (framework : Framework) (patterns : List String) :
    Action Printed :=
  orFatal ("reading source units under " ++ root ++ ": ") (readUnits s false root patterns)
    fun units =>
      let found := extractControllers framework.convention units
      orFatal "" (Action.ofExcept found.result) fun controllers =>
        return ⟨0, (Json.list (controllers.map Controller.toJson)).pretty ++ "\n",
          Note.report found.notes⟩

/-- Print the settings, or save them to a file. -/
def printSettings (s : Surroundings) (file output : Option String) : Action Printed :=
  orFatal "" (Settings.load s file) fun settings =>
    orFatal "" (Action.ofExcept settings.toToml) fun text =>
      match output with
      | none => return ⟨0, text, ""⟩
      | some path =>
        orFatal "" (Action.demand (.overwrite path text.toUTF8) fun r => .disk r.message) fun _ =>
          return ⟨0, "", "✅ Configuration saved to " ++ path ++ "\n"⟩

/-- Run a command. -/
def Command.run (s : Surroundings) : Command → Action Printed
  | generate file task stdout => runTasks s file task (if stdout then .stdout else .write)
  | check file task => runTasks s file task .check
  | inspect root framework patterns => ApiSurface.inspect s root framework patterns
  | config file output => printSettings s file output

/-- The commands and their options. -/
def usage : String :=
  textOfLines ["Usage: apigen <COMMAND>", "",
    "  generate [--config <FILE>] [--task <NAME>] [--stdout]",
    "  check    [--config <FILE>] [--task <NAME>]",
    "  inspect  [--root <DIRECTORY>] [--framework nest] <PATTERNS>...",
    "  config   [--config <FILE>] [--output <FILE>]"]

/-- Run the command of some arguments; nothing if they are misused. -/
def runArguments (s : Surroundings) (args : List String) : Option (Action Printed) :=
  (Command.ofArguments? args).map (Command.run s)

end ApiSurface
