import ApiSurface.Disk.Action
import ApiSurface.Ini
import ApiSurface.Json.Reader
import ApiSurface.Json5
import ApiSurface.Ron
import ApiSurface.Settings.Layer
import ApiSurface.Settings.Table
import ApiSurface.Surroundings
import ApiSurface.Text.Utf8
import ApiSurface.Yaml.Document

/-!
# Loading settings

* `Settings.ofToml`: settings out of one document;
* `Settings.load`: settings out of all places where they may stand, the later ones over the earlier
  ones: the files of the working directory, the file of the user, the file that is asked for, the
  environment.
-/

namespace ApiSurface

/-! ## One document -/

/-- Settings out of the entries that layers leave. -/
def Settings.ofEntries (es : List (String × Value)) : Except Failure Settings :=
  match Settings.ofEntries? es with
  | some s => .ok s
  | none => .error (.badSettings "a setting has an unexpected value")

/-- Settings out of a document. -/
def Settings.ofToml (text : String) : Except Failure Settings :=
  match Toml.read? text with
  | some es => Layer.overlay [] es >>= Settings.ofEntries
  | none => .error (.badSettings "malformed document")

/-! ## Files -/

/-- The formats of files with settings. -/
inductive FileFormat
  | toml
  | json
  | yaml
  | ini
  | ron
  | json5
deriving DecidableEq, Repr

/-- The formats and their extensions, in the order in which files are looked for. -/
def FileFormat.extensions : List (FileFormat × String) :=
  [(.toml, "toml"), (.json, "json"), (.yaml, "yaml"), (.yaml, "yml"), (.ini, "ini"), (.ron, "ron"),
    (.json5, "json5")]

/-- The extension of a file name. -/
def extension? (path : String) : Option String :=
  match Path.fileName? path with
  | none => none
  | some name =>
    match Path.beforeLast '.' name.toList with
    | none => none
    | some [] => none
    | some cs => some (String.ofList (name.toList.drop (cs.length + 1)))

/-- The format of a file, by its extension. -/
def FileFormat.ofPath? (path : String) : Option FileFormat :=
  (extension? path).bind fun e =>
    (FileFormat.extensions.find? fun f => f.2 = e).map (·.1)

/-- The entries of a table. -/
def Value.entries? : Value → Option (List (String × Value))
  | .table es => some es
  | _ => none

/-- The entries in the text of a file. -/
def FileFormat.read? : FileFormat → String → Option (List (String × Value))
  | toml, text => Toml.read? text
  | json, text => ((Json.read? text).filter Json.fit).bind fun v => (Value.ofJson v).entries?
  | yaml, text => Yaml.read? text
  | ini, text => Ini.read? text
  | ron, text => (Ron.read? text).bind Value.entries?
  | json5, text => (Json5.read? text).bind Value.entries?

/-- What a file that cannot be used means. -/
def noLayer (required : Bool) (cause : String) : Action (List (String × Value)) :=
  if required then .fail (.badSettings cause) else .pure []

/-- The entries of a file that was found; it must be text. -/
def layerOf (required : Bool) (format : FileFormat) (bytes : ByteArray) :
    Action (List (String × Value)) :=
  match String.fromUTF8? bytes with
  | none => noLayer required "stream did not contain valid UTF-8"
  | some text =>
    match format.read? text with
    | some es => .pure es
    | none => .fail (.badSettings "malformed document")

/-- The entries of the first file whose name is the given one with an extension behind it. -/
def appendedLayer (required : Bool) (path : String) :
    List (FileFormat × String) → Action (List (String × Value))
  | [] => noLayer required "configuration file not found"
  | (format, extension) :: more =>
    .call (.read (path ++ "." ++ extension)) fun r =>
      match r with
      | .ok bytes => layerOf required format bytes
      | .error _ => appendedLayer required path more

/-- The characters of a path up to the end of its last component, from the last one on. -/
def withoutTail : List Char → List Char
  | '/' :: r => withoutTail r
  | '.' :: '/' :: r => withoutTail r
  | r => r

/-- The entries of a file. Where there is none of its name, extensions are tried. -/
def fileLayer (required : Bool) (path : String) : Action (List (String × Value)) :=
  .call (.read path) fun r =>
    match r, FileFormat.ofPath? path, Path.fileName? path with
    | .ok bytes, some format, _ => layerOf required format bytes
    | .ok _, none, _ => noLayer required "not of a registered file format"
    | .error _, _, none => noLayer required "configuration file not found"
    | .error _, _, some _ =>
      appendedLayer required (String.ofList (withoutTail path.toList.reverse).reverse)
        FileFormat.extensions

/-! ## All places -/

/-- The directory with the settings of the user. -/
def Surroundings.userSettings? (s : Surroundings) : Option String :=
  match (s.valueOf? "XDG_CONFIG_HOME").filter Path.isAbsolute with
  | some dir => some dir
  | none => (s.valueOf? "HOME").map fun home => Path.join home ".config"

/-- The file with the settings of the user. -/
def Surroundings.userFile? (s : Surroundings) : Option String :=
  s.userSettings?.map fun dir => Path.join (Path.join dir "apigen") "apigen.toml"

/-- Files with settings in the working directory, in their order. -/
def settingsFiles : List String := ["apigen.toml", ".apigen.toml", "config/apigen.toml"]

/-- The entries of the file of the user, if there is something in its place. -/
def userLayer (path : String) : Action (List (String × Value)) :=
  .call (.locate path) fun r =>
    match r with
    | .ok _ => fileLayer false path
    | .error _ => .pure []

/-- The places where settings may stand, in their order; a file that is asked for must be there. -/
def Surroundings.layers (s : Surroundings) (file : Option String) :
    List (Action (List (String × Value))) :=
  settingsFiles.map (fun path => fileLayer false (Path.join s.here path)) ++
    s.userFile?.toList.map userLayer ++
    file.toList.map (fun path => fileLayer true (Path.join s.here path)) ++
    [.pure (Layer.ofEnvironment s.environment)]

/-- The entries of all layers, the later ones over the earlier ones. -/
def overlayAll (base : List (String × Value)) :
    List (Action (List (String × Value))) → Action (List (String × Value))
  | [] => .pure base
  | layer :: layers => do
    let entries ← layer
    overlayAll (← Action.ofExcept (Layer.overlay base entries)) layers

/-- Settings out of all places. -/
def Settings.load (s : Surroundings) (file : Option String) : Action Settings := do
  Action.ofExcept (Settings.ofEntries (← overlayAll [] (s.layers file)))

end ApiSurface
