import ApiSurface.Settings.Codec

/-!
# Arguments

* `Command`: what can be asked for on the command line;
* `Command.ofArguments?`: the command of a list of arguments, unless they are misused.
-/

namespace ApiSurface

/-- What can be asked for on the command line: to generate what the tasks of a file of settings
describe, to check it against the disk, to print the controllers below a root, or to print or save
the settings themselves. -/
inductive Command
  | generate (settings task : Option String) (stdout : Bool)
  | check (settings task : Option String)
  | inspect (root : String) (framework : Framework) (patterns : List String)
  | config (settings output : Option String)
deriving DecidableEq, Repr

namespace Command

/-- What follows an option. -/
inductive Operand
  | nothing
  | text
  | path
  | framework
deriving DecidableEq, Repr

/-- An option: its names, and what follows it. -/
structure Switch where
  long : String
  short : Option Char
  operand : Operand

/-- Whether an operand can be what is given; a path cannot be empty. -/
def Operand.accepts : Operand → String → Bool
  | nothing, _ => false
  | text, _ => true
  | path, s => !s.isEmpty
  | framework, s => (Framework.ofText? s).isSome

/-- What was given: the options with their operands, and everything else. -/
structure Given where
  options : List (String × String)
  rest : List String

/-- The operand of an option. -/
def Given.option? (g : Given) (long : String) : Option String := g.options.lookup long

/-- One more option; none may be given twice. -/
def Given.withOption? (g : Given) (long operand : String) : Option Given :=
  if (g.option? long).isSome then none
  else some { g with options := g.options ++ [(long, operand)] }

/-- What an argument is. -/
inductive Role
  | endOfOptions
  | option (s : Switch) (operand : Option String)
  | plain
  | unknown

/-- Split at the first equals sign. -/
def splitEquals (cs : List Char) : String × Option String :=
  match cs.dropWhile (· != '=') with
  | [] => (String.ofList cs, none)
  | _ :: r => (String.ofList (cs.takeWhile (· != '=')), some (String.ofList r))

/-- The operand that is attached to a short option. -/
def attached : List Char → Option String
  | [] => none
  | '=' :: r => some (String.ofList r)
  | r => some (String.ofList r)

/-- What an argument is, among options. -/
def Role.of (switches : List Switch) (arg : String) : Role :=
  match arg.toList with
  | ['-', '-'] => .endOfOptions
  | '-' :: '-' :: r =>
    match switches.find? fun s => s.long = (splitEquals r).1 with
    | some s => .option s (splitEquals r).2
    | none => .unknown
  | '-' :: c :: r =>
    match switches.find? fun s => s.short = some c with
    | some s => .option s (attached r)
    | none => .unknown
  | _ => .plain

/-- How far arguments are read: what was given, the option that waits for its operand, and whether
options are over. -/
structure State where
  given : Given
  waiting : Option Switch
  ended : Bool

/-- The operand of an option that was given. -/
def State.operand? (s : State) (w : Switch) (operand : String) : Option State :=
  if w.operand.accepts operand then
    (s.given.withOption? w.long operand).map fun g => { s with given := g, waiting := none }
  else none

/-- An option that was given, with the operand that is attached to it. -/
def State.option? (s : State) (w : Switch) : Option String → Option State
  | some operand => s.operand? w operand
  | none =>
    if w.operand = .nothing then (s.given.withOption? w.long "").map fun g => { s with given := g }
    else some { s with waiting := some w }

/-- One more argument. -/
def State.step (switches : List Switch) (s : State) (arg : String) : Option State :=
  let plain : State := { s with given := { s.given with rest := s.given.rest ++ [arg] } }
  if s.ended then some plain
  else match s.waiting, Role.of switches arg with
    | none, .endOfOptions => some { s with ended := true }
    | none, .option w operand => s.option? w operand
    | none, .plain => some plain
    | some w, .plain => s.operand? w arg
    | _, _ => none

/-- What arguments give, unless an option waits at their end. -/
def given? (switches : List Switch) (args : List String) : Option Given := do
  let s ← args.foldlM (State.step switches) ⟨⟨[], []⟩, none, false⟩
  if s.waiting.isSome then none else some s.given

/-- The option for a file of settings. -/
def configSwitch : Switch := ⟨"config", some 'c', .path⟩

/-- The option for a task. -/
def taskSwitch : Switch := ⟨"task", some 't', .text⟩

/-- What arguments give, where nothing but options may be given. -/
def onlyOptions? (switches : List Switch) (args : List String) : Option Given :=
  (given? switches args).filter fun g => g.rest.isEmpty

/-- Arguments of `generate`. -/
def ofGenerate? (args : List String) : Option Command := do
  let g ← onlyOptions? [configSwitch, taskSwitch, ⟨"stdout", none, .nothing⟩] args
  return .generate (g.option? "config") (g.option? "task") (g.option? "stdout").isSome

/-- Arguments of `check`. -/
def ofCheck? (args : List String) : Option Command := do
  let g ← onlyOptions? [configSwitch, taskSwitch] args
  return .check (g.option? "config") (g.option? "task")

/-- Arguments of `inspect`: at least one pattern. -/
def ofInspect? (args : List String) : Option Command := do
  let g ← given? [⟨"root", some 'r', .path⟩, ⟨"framework", some 'f', .framework⟩] args
  let root := (g.option? "root").getD "."
  let framework := ((g.option? "framework").bind Framework.ofText?).getD .nest
  if g.rest.isEmpty then none else return .inspect root framework g.rest

/-- Arguments of `config`. -/
def ofConfig? (args : List String) : Option Command := do
  let g ← onlyOptions? [configSwitch, ⟨"output", some 'o', .path⟩] args
  return .config (g.option? "config") (g.option? "output")

/-- The command of arguments, unless they are misused. -/
def ofArguments? : List String → Option Command
  | "generate" :: args => ofGenerate? args
  | "check" :: args => ofCheck? args
  | "inspect" :: args => ofInspect? args
  | "config" :: args => ofConfig? args
  | _ => none

end Command

end ApiSurface
