import ApiSurface.Failure
import ApiSurface.Path
import ApiSurface.Settings.Codec
import ApiSurface.Toml.Document
import ApiSurface.Toml.Writer

/-!
# Settings as tables

* `Settings.toEntries`, `Settings.ofEntries?`: settings as the entries of a table, what is not set
  left out;
* `Settings.toToml`: settings as a TOML document;
* `Settings.rootPath`, `Settings.select`: the root as a whole path, the tasks of a run.

Outside the settings of an emitter any scalar stands for its text; inside them nothing is converted.
-/

namespace ApiSurface

/-! ## Reading -/

/-- The values of a record's fields: by name in a table, by position in a list. -/
def Value.slots (names : List String) : Value → Option (List (Option Value))
  | .table es => some (names.map fun n => es.lookup n)
  | .list vs => some ((List.range names.length).map fun i => vs[i]?)
  | _ => none

/-- A list of words. -/
def Value.words? : Value → Option (List String)
  | .list vs => vs.mapM Value.word?
  | _ => none

/-- A framework by its name in any case, alone or as the only key of a table. -/
def Framework.ofValue? : Value → Option Framework
  | .text s => Framework.ofText? s.toLower
  | .table [(k, _)] => Framework.ofText? k.toLower
  | _ => none

/-- Settings of an emitter. -/
def EmitterSettings.ofValue? (v : Value) : Option EmitterSettings :=
  EmitterSettings.ofJson? v.toJson

/-- A task. -/
def TaskSettings.ofValue? (v : Value) : Option TaskSettings :=
  match v.slots ["name", "framework", "controllers", "types", "emitter"] with
  | some [name, framework, controllers, types, emitter] => do
    return ⟨← name.bind Value.word?, ← (framework.map Framework.ofValue?).getD (some .nest),
      ← (controllers.map Value.words?).getD (some []), ← (types.map Value.words?).getD (some []),
      ← emitter.bind EmitterSettings.ofValue?⟩
  | _ => none

/-- A list of tasks. -/
def tasksOfValue? : Value → Option (List TaskSettings)
  | .list vs => vs.mapM TaskSettings.ofValue?
  | _ => none

/-- The root where none is given. -/
def Settings.standardRoot : String := "."

/-- Settings out of the entries of a table. -/
def Settings.ofEntries? (es : List (String × Value)) : Option Settings := do
  return ⟨← ((es.lookup "root").map Value.word?).getD (some standardRoot),
    ← ((es.lookup "tasks").map tasksOfValue?).getD (some [])⟩

/-! ## Writing -/

/-- An entry for a text that is set. -/
def entryIf (name : String) (value : Option String) : List (String × Value) :=
  match value with
  | none => []
  | some s => [(name, .text s)]

/-- A format as a table. -/
def Format.toValue (f : Format) : Value :=
  .table [("indent", .integer f.indent), ("quote", .text f.quote.text)]

/-- The settings of an emitter as a table. -/
def EmitterSettings.toValue : EmitterSettings → Value
  | client s => .table (("kind", .text "client") :: ("output", .text s.output) ::
      (entryIf "types_output" s.typesOutput ++ entryIf "request_module" s.requestModule ++
        entryIf "overrides_param" s.overridesParam ++ entryIf "header" s.header ++
        [("format", s.format.toValue)]))
  | document s => .table (("kind", .text "openapi") :: ("output", .text s.output) ::
      ("title", .text s.title) :: ("version", .text s.version) ::
      (entryIf "description" s.description ++ [("stdout", .bool s.stdout)]))

/-- A task as a table. -/
def TaskSettings.toValue (t : TaskSettings) : Value :=
  .table [("name", .text t.name), ("framework", .text t.framework.text),
    ("controllers", .texts t.controllers), ("types", .texts t.types),
    ("emitter", t.emitter.toValue)]

/-- Settings as the entries of a table. -/
def Settings.toEntries (s : Settings) : List (String × Value) :=
  [("root", .text s.root), ("tasks", .list (s.tasks.map TaskSettings.toValue))]

/-- The indentation that a client is emitted with, if it is one. -/
def EmitterSettings.indent? : EmitterSettings → Option Nat
  | client s => some s.format.indent
  | document _ => none

/-- Every integer of the settings is one that a document can hold. -/
def Settings.fits (s : Settings) : Bool :=
  s.tasks.all fun t => t.emitter.indent?.all fun n => n ≤ Value.maxInteger

/-! ## Documents -/

/-- Settings as a document. -/
def Settings.toToml (s : Settings) : Except Failure String :=
  if s.fits then .ok (Toml.write s.toEntries) else .error (.toml "an integer is out of range")

/-! ## Use -/

/-- The root as a path from a working directory, unless it is absolute. -/
def Settings.rootPath (s : Settings) (here : String) : String := Path.join here s.root

/-- All tasks, or the first one of a name. -/
def Settings.select (s : Settings) : Option String → Except Failure (List TaskSettings)
  | none => .ok s.tasks
  | some name =>
    match s.tasks.find? fun t => t.name = name with
    | some t => .ok [t]
    | none => .error (.unknownTask name)

end ApiSurface
