import ApiSurface.Json.Decode
import ApiSurface.Settings.Basic

/-!
# Settings as JSON

* `Format.ofJson?`, `EmitterSettings.ofJson?`, `TaskSettings.ofJson?`: reading;
* `EmitterSettings.toJson`, `TaskSettings.toJson`, `Settings.toJson`: writing, null for what is not
  set.

The settings of an emitter are tagged by its kind: an object with the member `kind`, or a list that
starts with the kind.
-/

namespace ApiSurface

open ApiSurface.Json

/-! ## Reading -/

/-- Read a quote style by name. -/
def QuoteStyle.ofJson? (v : Json) : Option QuoteStyle :=
  (choiceName? true v).bind QuoteStyle.ofText?

/-- Read a format. -/
def Format.ofJson? (v : Json) : Option Format :=
  match slots ["indent", "quote"] v with
  | some [indent, quote] => do
    return ⟨← defaulted natural? Format.standard.indent indent,
      ← defaulted QuoteStyle.ofJson? Format.standard.quote quote⟩
  | _ => none

/-- Read the settings of a client. -/
def ClientSettings.ofJson? (v : Json) : Option ClientSettings :=
  match slots ["output", "types_output", "request_module", "overrides_param", "header", "format"] v
  with
  | some [output, typesOutput, requestModule, overridesParam, header, format] => do
    return ⟨← required text? output, ← nullable text? typesOutput, ← nullable text? requestModule,
      ← nullable text? overridesParam, ← nullable text? header,
      ← defaulted Format.ofJson? Format.standard format⟩
  | _ => none

/-- Read the settings of a document. -/
def DocumentSettings.ofJson? (v : Json) : Option DocumentSettings :=
  match slots ["output", "title", "version", "description", "stdout"] v with
  | some [output, title, version, description, stdout] => do
    return ⟨← required text? output, ← defaulted text? "API" title,
      ← defaulted text? "1.0.0" version, ← nullable text? description,
      ← defaulted bool? false stdout⟩
  | _ => none

/-- Read the settings of an emitter of some kind. -/
def emitterOfKind? (kind : String) (v : Json) : Option EmitterSettings :=
  if kind = "client" then (ClientSettings.ofJson? v).map .client
  else if kind = "openapi" then (DocumentSettings.ofJson? v).map .document
  else none

/-- Read the settings of an emitter. -/
def EmitterSettings.ofJson? (v : Json) : Option EmitterSettings :=
  if v.fit then
    match v with
    | .object ms =>
      if once ["kind"] ms then do
        let kind ← (ms.lookup "kind").bind text?
        emitterOfKind? kind v
      else none
    | .list (.text kind :: vs) => emitterOfKind? kind (.list vs)
    | _ => none
  else none

/-- The framework of a name. -/
def Framework.ofText? (s : String) : Option Framework :=
  if s = Framework.nest.text then some .nest else none

/-- Read a framework by name. -/
def Framework.ofJson? (v : Json) : Option Framework := (choiceName? false v).bind Framework.ofText?

/-- Read a task. -/
def TaskSettings.ofJson? (v : Json) : Option TaskSettings :=
  match slots ["name", "framework", "controllers", "types", "emitter"] v with
  | some [name, framework, controllers, types, emitter] => do
    return ⟨← required text? name, ← defaulted Framework.ofJson? .nest framework,
      ← defaulted (listOf? text?) [] controllers, ← defaulted (listOf? text?) [] types,
      ← required EmitterSettings.ofJson? emitter⟩
  | _ => none

/-! ## Writing -/

/-- A natural number as JSON. -/
def naturalJson (n : Nat) : Json := .number (.natural n)

/-- A format as JSON. -/
def Format.toJson (f : Format) : Json :=
  .object [("indent", naturalJson f.indent), ("quote", .text f.quote.text)]

/-- The settings of an emitter as JSON. -/
def EmitterSettings.toJson : EmitterSettings → Json
  | client s => .object [("kind", .text "client"), ("output", .text s.output),
      ("types_output", textOrNull s.typesOutput), ("request_module", textOrNull s.requestModule),
      ("overrides_param", textOrNull s.overridesParam), ("header", textOrNull s.header),
      ("format", s.format.toJson)]
  | document s => .object [("kind", .text "openapi"), ("output", .text s.output),
      ("title", .text s.title), ("version", .text s.version),
      ("description", textOrNull s.description), ("stdout", .bool s.stdout)]

/-- A task as JSON. -/
def TaskSettings.toJson (t : TaskSettings) : Json :=
  .object [("name", .text t.name), ("framework", .text t.framework.text),
    ("controllers", .list (t.controllers.map .text)), ("types", .list (t.types.map .text)),
    ("emitter", t.emitter.toJson)]

/-- Settings as JSON. -/
def Settings.toJson (s : Settings) : Json :=
  .object [("root", .text s.root), ("tasks", .list (s.tasks.map TaskSettings.toJson))]

end ApiSurface
