import ApiSurface.Json.Decode
import ApiSurface.Source.Codec

/-!
# Schemas

The shapes that a document describes values with. A reference names a declaration and never
contains it.

* `Primitive`, `Schema`, `PropertySchema`: the shapes;
* `Schema.toJson`: a shape as a schema object;
* `Schema.references`: the declarations a shape refers to.
-/

namespace ApiSurface

/-- A primitive type with an optional format; without values, all are allowed. -/
structure Primitive where
  kind : Keyword
  format : Option String
  values : List Literal
deriving DecidableEq, Repr

mutual

/-- A shape of values; `unknown` accepts anything. -/
inductive Schema
  | primitive (primitive : Primitive)
  | array (items : Schema)
  | reference (name : String)
  | anyOf (members : List Schema)
  | allOf (members : List Schema)
  | object (description : Option String) (properties : List PropertySchema)
  | unknown
deriving Repr

/-- A property of an object shape. -/
structure PropertySchema where
  name : String
  schema : Schema
  description : Option String
  required : Bool
deriving Repr

end

namespace Schema

/-- The shape of all values of a primitive type. -/
def ofKeyword (k : Keyword) : Schema := primitive ⟨k, none, []⟩

/-- The shape of texts that are dates. -/
def dateTime : Schema := primitive ⟨.string, some "date-time", []⟩

/-- An object about whose properties nothing is said. -/
def emptyObject : Schema := object none []

/-- The name a reference refers to. -/
def reference? : Schema → Option String
  | reference name => some name
  | _ => none

/-! ## Equality -/

mutual

/-- Whether two shapes are the same. -/
def same : Schema → Schema → Bool
  | primitive p, primitive q => p = q
  | array a, array b => same a b
  | reference m, reference n => m = n
  | anyOf as, anyOf bs => sameAll as bs
  | allOf as, allOf bs => sameAll as bs
  | object d ps, object e qs => d = e && sameProperties ps qs
  | unknown, unknown => true
  | _, _ => false

/-- Whether two lists of shapes are the same. -/
def sameAll : List Schema → List Schema → Bool
  | [], [] => true
  | a :: as, b :: bs => same a b && sameAll as bs
  | _, _ => false

/-- Whether two lists of properties are the same. -/
def sameProperties : List PropertySchema → List PropertySchema → Bool
  | [], [] => true
  | ⟨m, a, d, r⟩ :: ps, ⟨n, b, e, s⟩ :: qs =>
    m = n && same a b && d = e && r = s && sameProperties ps qs
  | _, _ => false

end

/-- Whether a shape is among others. -/
def isAmong (s : Schema) (others : List Schema) : Bool := others.any fun o => o.same s

/-- The shapes without repetitions, in the order of their first occurrence; `kept` came before. -/
def distinct (kept : List Schema) : List Schema → List Schema
  | [] => kept
  | s :: ss => if s.isAmong kept then distinct kept ss else distinct (kept ++ [s]) ss

/-! ## Schema objects -/

/-- What a reference to a component starts with. -/
def componentPath : String := "#/components/schemas/"

mutual

/-- The members of a schema object. -/
def toMembers : Schema → List (String × Json)
  | primitive p =>
    ("type", .text p.kind.text) :: Json.memberIf "format" (p.format.map .text) ++
      (if p.values.isEmpty then [] else [("enum", .list (p.values.map Literal.toJson))])
  | array items => [("type", .text "array"), ("items", .object items.toMembers)]
  | reference name => [("$ref", .text (componentPath ++ name))]
  | anyOf members => [("anyOf", .list (toObjects members))]
  | allOf members => [("allOf", .list (toObjects members))]
  | object description properties =>
    ("type", .text "object") :: Json.memberIf "description" (description.map .text) ++
      (if properties.isEmpty then [] else [("properties", .object (propertyMembers properties))]) ++
      Json.textsIfAny "required" ((properties.filter (·.required)).map (·.name))
  | unknown => []

/-- Schema objects. -/
def toObjects : List Schema → List Json
  | [] => []
  | s :: ss => .object s.toMembers :: toObjects ss

/-- Properties by name, each with its description. -/
def propertyMembers : List PropertySchema → List (String × Json)
  | [] => []
  | ⟨name, schema, description, _⟩ :: ps =>
    (name, .object (schema.toMembers ++ Json.memberIf "description" (description.map .text))) ::
      propertyMembers ps

end

/-- A shape as a schema object. -/
def toJson (s : Schema) : Json := .object s.toMembers

/-! ## References -/

mutual

/-- The names a shape refers to, at any depth. -/
def references : Schema → List String
  | reference name => [name]
  | array items => items.references
  | anyOf members => referencesOf members
  | allOf members => referencesOf members
  | object _ properties => propertyReferences properties
  | _ => []

/-- The names that shapes refer to. -/
def referencesOf : List Schema → List String
  | [] => []
  | s :: ss => s.references ++ referencesOf ss

/-- The names that the shapes of properties refer to. -/
def propertyReferences : List PropertySchema → List String
  | [] => []
  | ⟨_, schema, _, _⟩ :: ps => schema.references ++ propertyReferences ps

end

end Schema

end ApiSurface
