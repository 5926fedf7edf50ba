import ApiSurface.Endpoint.Convention
import ApiSurface.Json.Decode
import ApiSurface.Source.TypeExpr

/-!
# Requests and controllers

The endpoints of an API, free of the decorators they were read from.

* `BoundParameter`, `FieldBinding`, `Payload`: what travels in a request;
* `Request`, `Controller`: an endpoint, and the endpoints of one class;
* `Request.parameters`: everything a caller has to supply, in order;
* `Controller.toJson`: a controller as JSON, types in source notation.
-/

namespace ApiSurface

open ApiSurface.Json

/-- A parameter of a handler that travels in a request. -/
structure BoundParameter where
  name : String
  type : TypeExpr
  optional : Bool
deriving Repr

/-- A parameter that supplies one named field. -/
structure FieldBinding where
  property : String
  parameter : BoundParameter
deriving Repr

/-- What supplies a query or a body: one parameter all of it, or several their fields. -/
inductive Payload
  | whole (parameter : BoundParameter)
  | fields (bindings : List FieldBinding)
deriving Repr

/-- The parameters of a payload, in order. -/
def Payload.parameters : Payload → List BoundParameter
  | whole parameter => [parameter]
  | fields bindings => bindings.map (·.parameter)

/-- One endpoint. -/
structure Request where
  name : String
  docs : Option String
  template : String
  verb : Verb
  params : List FieldBinding
  query : Option Payload
  data : Option Payload
  returnType : TypeExpr
deriving Repr

/-- The parameters of a payload, if there is one. -/
def payloadParameters (p : Option Payload) : List BoundParameter :=
  (p.map Payload.parameters).getD []

/-- All that a caller supplies: path fields, then query, then body. -/
def Request.parameters (r : Request) : List BoundParameter :=
  r.params.map (·.parameter) ++ payloadParameters r.query ++ payloadParameters r.data

/-- The endpoints of one class. -/
structure Controller where
  name : String
  source : String
  baseUrl : String
  docs : Option String
  requests : List Request
deriving Repr

/-! ## Written form -/

/-- A bound parameter as JSON. -/
def BoundParameter.toJson (p : BoundParameter) : Json :=
  .object [("name", .text p.name), ("type", .text p.type.text), ("optional", .bool p.optional)]

/-- A field binding as JSON. -/
def FieldBinding.toJson (b : FieldBinding) : Json :=
  .object [("property", .text b.property), ("parameter", b.parameter.toJson)]

/-- A payload as JSON. -/
def Payload.toJson : Payload → Json
  | whole parameter => .object [("whole", parameter.toJson)]
  | fields bindings => .object [("partial", .list (bindings.map FieldBinding.toJson))]

/-- A request as JSON. -/
def Request.toJson (r : Request) : Json :=
  .object (("name", .text r.name) :: memberIf "docs" (r.docs.map .text) ++
    [("url_template", .text r.template), ("verb", .text r.verb.upper),
      ("params", .list (r.params.map FieldBinding.toJson))] ++
    memberIf "query" (r.query.map Payload.toJson) ++ memberIf "data" (r.data.map Payload.toJson) ++
    [("return_type", .text r.returnType.text)])

/-- A controller as JSON. -/
def Controller.toJson (c : Controller) : Json :=
  .object ([("name", .text c.name), ("source", .text c.source), ("base_url", .text c.baseUrl)] ++
    memberIf "docs" (c.docs.map .text) ++ [("requests", .list (c.requests.map Request.toJson))])

end ApiSurface
