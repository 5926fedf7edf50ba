import ApiSurface.Artifact
import ApiSurface.Document.Basic
import ApiSurface.Endpoint.Request
import ApiSurface.Json.Writer
import ApiSurface.Route.Template
import ApiSurface.Schema.Resolve
import ApiSurface.Settings.Basic
import ApiSurface.Text.Blank

/-!
# Documents of an API

* `expand`: the properties that stand for a query type;
* `operation`: the operation of a request;
* `addRoute`, `build`: the document; of two requests with one path and verb the later counts;
* `emit`: the document as an artifact.
-/

namespace ApiSurface.Document

open ApiSurface.Route ApiSurface.Text

/-! ## Query types -/

/-- The properties that a query type stands for: those of an object type, of an interface or class
with all it inherits, of the target of an alias, and of the members of an intersection, the first of
each name. The fuel bounds the nesting of aliases and intersections. -/
def expand (c : Catalog) : (fuel : Nat) → TypeExpr → Option (List Property)
  | 0, _ => none
  | fuel + 1, t =>
    match t with
    | .object members => some members
    | .reference name [] =>
      match (c.get? name).map Declaration.body with
      | some (.interface _) => some (c.flattenedProperties name)
      | some (.classType _) => some (c.flattenedProperties name)
      | some (.alias target _) => expand c fuel target
      | _ => none
    | .intersection members =>
      (members.mapM (expand c fuel)).map fun pss => Catalog.firstOfName pss.flatten []
    | _ => none

/-- How deep aliases and intersections may be nested in a query type. -/
def maxNesting : Nat := 16

/-! ## Operations -/

/-- The schema of a type, open if it has none. -/
def schemaOf (c : Catalog) (subject : String) (t : TypeExpr) : Noted Schema := do
  let s ← resolve (some c) subject t
  return s.getD .unknown

/-- A parameter for a field; path parameters are always required. -/
def fieldParameter (c : Catalog) (subject : String) (location : BindingSource) (b : FieldBinding) :
    Noted Parameter := do
  let schema ← schemaOf c subject b.parameter.type
  return ⟨b.property, location, location = .path || !b.parameter.optional, schema, none⟩

/-- Parameters for fields. -/
def fieldParameters (c : Catalog) (subject : String) (location : BindingSource) :
    List FieldBinding → Noted (List Parameter)
  | [] => pure []
  | b :: bs => do
    let p ← fieldParameter c subject location b
    let ps ← fieldParameters c subject location bs
    return p :: ps

/-- A query parameter for each property that has a schema. -/
def propertyParameters (c : Catalog) (subject : String) : List Property → Noted (List Parameter)
  | [] => pure []
  | p :: ps => do
    let s ← resolve (some c) subject p.type
    let rest ← propertyParameters c subject ps
    return (s.map fun s => ⟨p.name, .query, !p.optional, s, p.docs⟩).toList ++ rest

/-- The parameters for a parameter that supplies the whole query: one for each property, or a single
one and a note if the type does not expand. -/
def wholeQueryParameters (c : Catalog) (subject : String) (p : BoundParameter) :
    Noted (List Parameter) :=
  match expand c (maxNesting + 1) p.type with
  | some properties => propertyParameters c subject properties
  | none => do
    Noted.note (Note.unexpandableQuery subject p.type.text p.name)
    let schema ← schemaOf c subject p.type
    return [⟨p.name, .query, !p.optional, schema, none⟩]

/-- The parameters for a query. -/
def queryParameters (c : Catalog) (subject : String) : Option Payload → Noted (List Parameter)
  | none => pure []
  | some (.whole p) => wholeQueryParameters c subject p
  | some (.fields bindings) => fieldParameters c subject .query bindings

/-- The properties of a body made of fields. -/
def bodyProperties (c : Catalog) (subject : String) :
    List FieldBinding → Noted (List PropertySchema)
  | [] => pure []
  | b :: bs => do
    let schema ← schemaOf c subject b.parameter.type
    let rest ← bodyProperties c subject bs
    return ⟨b.property, schema, none, !b.parameter.optional⟩ :: rest

/-- The body of a request. -/
def requestBody (c : Catalog) (subject : String) : Option Payload → Noted (Option RequestBody)
  | none => pure none
  | some (.whole p) => do
    let schema ← schemaOf c subject p.type
    return some ⟨!p.optional, schema⟩
  | some (.fields bindings) => do
    let properties ← bodyProperties c subject bindings
    return some ⟨bindings.any fun b => !b.parameter.optional, .object none properties⟩

/-- The operation of a request. -/
def operation (c : Catalog) (controller : String) (r : Request) : Noted Operation := do
  let subject := controller ++ "." ++ r.name
  let params ← fieldParameters c subject .path r.params
  let query ← queryParameters c subject r.query
  let body ← requestBody c subject r.data
  let answer ← resolve (some c) subject r.returnType
  return ⟨r.name, r.docs, [controller], params ++ query, body, [("200", ⟨"OK", answer⟩)]⟩

/-! ## Documents -/

/-- The operation stored under a path and a verb. -/
def routeOf (paths : Dict (Dict Operation)) (path verb : String) : Option Operation :=
  (paths.get? path).bind fun operations => operations.get? verb

/-- Store an operation under a path and a verb. -/
def putRoute (path verb : String) (o : Operation) (paths : Dict (Dict Operation)) :
    Dict (Dict Operation) :=
  paths.insert path (Dict.insert verb o ((paths.get? path).getD []))

/-- The note on an operation whose place is taken, if there is one. -/
def routeNotes (paths : Dict (Dict Operation)) (controller : String) (r : Request) : List Note :=
  match routeOf paths (documentPath r.template) r.verb.lower with
  | none => []
  | some previous =>
    [Note.duplicateRoute r.verb.upper (documentPath r.template) previous.operationId
      (controller ++ "." ++ r.name)]

/-- Store the operation of a request. -/
def addRoute (c : Catalog) (paths : Dict (Dict Operation)) (controller : String) (r : Request) :
    Noted (Dict (Dict Operation)) := do
  let o ← operation c controller r
  Noted.noteAll (routeNotes paths controller r)
  return putRoute (documentPath r.template) r.verb.lower o paths

/-- Store the operations of requests, each with the name of its controller, in order. -/
def addRoutes (c : Catalog) :
    Dict (Dict Operation) → List (String × Request) → Noted (Dict (Dict Operation))
  | paths, [] => pure paths
  | paths, (controller, r) :: rest => do
    let paths ← addRoute c paths controller r
    addRoutes c paths rest

/-- The schemas of declarations by name. -/
def addSchemas (c : Catalog) : Dict Schema → List Declaration → Noted (Dict Schema)
  | schemas, [] => pure schemas
  | schemas, d :: ds => do
    let s ← synthesize (some c) d
    addSchemas c (schemas.insert d.name s) ds

/-- The requests of controllers, each with the name of its controller. -/
def requestsOf (controllers : List Controller) : List (String × Request) :=
  controllers.flatMap fun c => c.requests.map fun r => (c.name, r)

/-- A tag for each controller with documentation, the first of each name. -/
def tagsOf : (controllers : List Controller) → (seen : List String) → List Tag
  | [], _ => []
  | c :: cs, seen =>
    match nonBlank? c.docs with
    | none => tagsOf cs seen
    | some docs =>
      if seen.contains c.name then tagsOf cs seen else ⟨c.name, docs⟩ :: tagsOf cs (c.name :: seen)

/-- The document of controllers and a catalog. -/
def build (s : DocumentSettings) (controllers : List Controller) (c : Catalog) :
    Noted Document := do
  let schemas ← addSchemas c [] c.declarations
  let paths ← addRoutes c [] (requestsOf controllers)
  return ⟨s.title, s.version, s.description, paths, schemas, tagsOf controllers []⟩

/-- The text of a document. -/
def text (d : Document) : String := d.toJson.pretty ++ "\n"

/-- The document as an artifact. -/
def emit (s : DocumentSettings) (controllers : List Controller) (c : Catalog) :
    Noted (List Artifact) := do
  let d ← build s controllers c
  return [⟨s.output, d.text⟩]

end ApiSurface.Document
