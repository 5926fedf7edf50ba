import ApiSurface.Dict
import ApiSurface.Endpoint.Convention
import ApiSurface.Schema.Basic

/-!
# API documents

The parts of an OpenAPI document and their written form.

* `Parameter`, `RequestBody`, `Response`, `Operation`: what is said about a request;
* `Document`: routes by path and verb, schemas by name, and tags;
* `Document.toJson`: the document as JSON;
* `Document.references`: the components that a document refers to.
-/

namespace ApiSurface

namespace Document

/-- A parameter of an operation. -/
structure Parameter where
  name : String
  location : BindingSource
  required : Bool
  schema : Schema
  description : Option String

/-- The body of a request, as JSON. -/
structure RequestBody where
  required : Bool
  schema : Schema

/-- An answer, with or without a body. -/
structure Response where
  description : String
  schema : Option Schema

/-- What a request does. -/
structure Operation where
  operationId : String
  summary : Option String
  tags : List String
  parameters : List Parameter
  requestBody : Option RequestBody
  responses : Dict Response

/-- A tag and what it stands for. -/
structure Tag where
  name : String
  description : String
deriving DecidableEq, Repr

end Document

/-- An API document. -/
structure Document where
  title : String
  version : String
  description : Option String
  paths : Dict (Dict Document.Operation)
  schemas : Dict Schema
  tags : List Document.Tag

namespace Document

open ApiSurface.Json

/-! ## Written form -/

/-- A member for a text that is there. -/
def textIf (name : String) (s : Option String) : List (String × Json) :=
  memberIf name (s.map .text)

/-- A schema as the contents of a body. -/
def jsonContent (s : Schema) : Json :=
  .object [("application/json", .object [("schema", s.toJson)])]

/-- A parameter as JSON. -/
def Parameter.toJson (p : Parameter) : Json :=
  .object ([("name", .text p.name), ("in", .text p.location.text), ("required", .bool p.required),
    ("schema", p.schema.toJson)] ++ textIf "description" p.description)

/-- A request body as JSON. -/
def RequestBody.toJson (b : RequestBody) : Json :=
  .object [("required", .bool b.required), ("content", jsonContent b.schema)]

/-- An answer as JSON. -/
def Response.toJson (r : Response) : Json :=
  .object (("description", .text r.description) :: memberIf "content" (r.schema.map jsonContent))

/-- An operation as JSON. -/
def Operation.toJson (o : Operation) : Json :=
  .object (("operationId", .text o.operationId) :: textIf "summary" o.summary ++
    [("tags", .list (o.tags.map .text))] ++
    (if o.parameters.isEmpty then []
      else [("parameters", .list (o.parameters.map Parameter.toJson))]) ++
    memberIf "requestBody" (o.requestBody.map RequestBody.toJson) ++
    [("responses", .object (o.responses.map fun r => (r.1, r.2.toJson)))])

/-- A tag as JSON. -/
def Tag.toJson (t : Tag) : Json :=
  .object [("name", .text t.name), ("description", .text t.description)]

/-- The operations of a path as JSON. -/
def pathToJson (operations : Dict Operation) : Json :=
  .object (operations.map fun o => (o.1, o.2.toJson))

/-- The version of the document format. -/
def formatVersion : String := "3.0.0"

/-- A document as JSON. -/
def toJson (d : Document) : Json :=
  .object [("openapi", .text formatVersion),
    ("info", .object ([("title", .text d.title), ("version", .text d.version)] ++
      textIf "description" d.description)),
    ("paths", .object (d.paths.map fun p => (p.1, pathToJson p.2))),
    ("components", .object [("schemas", .object (d.schemas.map fun s => (s.1, s.2.toJson)))]),
    ("tags", .list (d.tags.map Tag.toJson))]

/-! ## References -/

/-- The schemas that an operation holds. -/
def Operation.schemas (o : Operation) : List Schema :=
  o.parameters.map (·.schema) ++ (o.requestBody.map (·.schema)).toList ++
    o.responses.filterMap (·.2.schema)

/-- The components that an operation refers to. -/
def Operation.references (o : Operation) : List String := o.schemas.flatMap Schema.references

/-- All operations of a document. -/
def operations (d : Document) : List Operation := d.paths.flatMap fun p => p.2.map (·.2)

/-- The components that a document refers to, from operations and from components. -/
def references (d : Document) : List String :=
  d.operations.flatMap Operation.references ++ d.schemas.flatMap fun s => s.2.references

end Document

end ApiSurface
