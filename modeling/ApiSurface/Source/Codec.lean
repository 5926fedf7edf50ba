import ApiSurface.Dict
import ApiSurface.Json.Decode
import ApiSurface.Source.SourceUnit

/-!
# Source units as JSON

* `TypeExpr.toJson`, …, `SourceUnit.toJson`: the written form;
* `TypeExpr.ofJson?`, …, `SourceUnit.ofJson?`: any of the forms that are read.

A type expression is tagged by its kind: an object with the member `kind`, or a list that starts
with the kind and goes on with the fields in order. Reading a tagged value, a decorator argument or
a declaration takes the whole value into memory first, so that nothing in it may be unfit.
-/

namespace ApiSurface

open ApiSurface.Json

/-! ## Writing -/

/-- A literal as JSON. -/
def Literal.toJson : Literal → Json
  | string s => .text s
  | number n => .number n
  | boolean b => .bool b

/-- A member for documentation that is there. -/
def docsMember (docs : Option String) : List (String × Json) := memberIf "docs" (docs.map .text)

mutual

/-- A type expression as JSON. -/
def TypeExpr.toJson : TypeExpr → Json
  | .keyword k => .object [("kind", .text "keyword"), ("keyword", .text k.text)]
  | .literal v => .object [("kind", .text "literal"), ("value", v.toJson)]
  | .undefined => .object [("kind", .text "undefined")]
  | .null => .object [("kind", .text "null")]
  | .void => .object [("kind", .text "void")]
  | .any => .object [("kind", .text "any")]
  | .unknown => .object [("kind", .text "unknown")]
  | .array e => .object [("kind", .text "array"), ("element", e.toJson)]
  | .union ms => .object [("kind", .text "union"), ("members", .list (typesToJson ms))]
  | .intersection ms =>
    .object [("kind", .text "intersection"), ("members", .list (typesToJson ms))]
  | .reference name arguments =>
    .object (("kind", .text "reference") :: ("name", .text name) ::
      (if arguments.isEmpty then [] else [("arguments", .list (typesToJson arguments))]))
  | .typeParameter name => .object [("kind", .text "type_parameter"), ("name", .text name)]
  | .object ms => .object [("kind", .text "object"), ("members", .list (propertiesToJson ms))]

/-- Type expressions as JSON. -/
def typesToJson : List TypeExpr → List Json
  | [] => []
  | t :: ts => t.toJson :: typesToJson ts

/-- Properties as JSON. -/
def propertiesToJson : List Property → List Json
  | [] => []
  | ⟨name, type, optional, docs⟩ :: ps =>
    .object ([("name", .text name), ("type", type.toJson), ("optional", .bool optional)] ++
      docsMember docs) :: propertiesToJson ps

end

mutual

/-- A decorator argument as JSON. -/
def Argument.toJson : Argument → Json
  | .string s => .text s
  | .number n => .number n
  | .boolean b => .bool b
  | .list items => .list (argumentsToJson items)
  | .expression source => .object [("$expression", .text source)]
  | .object fields => .object (fieldsToJson fields)

/-- Arguments as JSON. -/
def argumentsToJson : List Argument → List Json
  | [] => []
  | a :: rest => a.toJson :: argumentsToJson rest

/-- The fields of an object argument as JSON. -/
def fieldsToJson : List (String × Argument) → List (String × Json)
  | [] => []
  | (k, a) :: fs => (k, a.toJson) :: fieldsToJson fs

end

/-- A decorator as JSON. -/
def Decorator.toJson (a : Decorator) : Json :=
  .object [("name", .text a.name), ("arguments", .list (argumentsToJson a.arguments))]

/-- A parameter as JSON. -/
def Parameter.toJson (p : Parameter) : Json :=
  .object [("name", .text p.name), ("optional", .bool p.optional),
    ("annotations", .list (p.decorators.map Decorator.toJson)), ("type", p.type.toJson)]

/-- A method as JSON. -/
def Method.toJson (m : Method) : Json :=
  .object (("name", .text m.name) :: docsMember m.docs ++
    [("annotations", .list (m.decorators.map Decorator.toJson)),
      ("parameters", .list (m.parameters.map Parameter.toJson))] ++
    memberIf "return_type" (m.returnType.map TypeExpr.toJson))

/-- A class as JSON. -/
def ClassDecl.toJson (c : ClassDecl) : Json :=
  .object (("name", .text c.name) :: docsMember c.docs ++
    [("annotations", .list (c.decorators.map Decorator.toJson)),
      ("methods", .list (c.methods.map Method.toJson))])

/-- A member of an enumeration as JSON. -/
def EnumMember.toJson (m : EnumMember) : Json :=
  .object [("name", .text m.name), ("value", m.value.toJson)]

/-- The members of an interface or a class. -/
def ObjectShape.toMembers (s : ObjectShape) : List (String × Json) :=
  ("properties", .list (propertiesToJson s.properties)) :: textsIfAny "supertypes" s.supertypes ++
    textsIfAny "type_parameters" s.typeParameters

/-- The members of a declaration's body. -/
def DeclarationBody.toMembers : DeclarationBody → List (String × Json)
  | .enumeration members => [("members", .list (members.map EnumMember.toJson))]
  | .interface shape => shape.toMembers
  | .classType shape => shape.toMembers
  | .alias target typeParameters =>
    ("target", target.toJson) :: textsIfAny "type_parameters" typeParameters

/-- A declaration as JSON. -/
def Declaration.toJson (d : Declaration) : Json :=
  .object (("name", .text d.name) :: docsMember d.docs ++
    [("exported", .bool d.exported), ("kind", .text d.kindName)] ++ d.body.toMembers)

/-- A source unit as JSON. -/
def SourceUnit.toJson (u : SourceUnit) : Json :=
  .object [("path", .text u.path), ("classes", .list (u.classes.map ClassDecl.toJson)),
    ("declarations", .list (u.declarations.map Declaration.toJson))]

/-! ## Reading types -/

/-- Read a literal: a text, a number or a truth value. -/
def Literal.ofJson? : Json → Option Literal
  | .text s => some (.string s)
  | .number n => some (.number n)
  | .bool b => some (.boolean b)
  | _ => none

/-- Read the name of a primitive type. -/
def Keyword.ofJson? (v : Json) : Option Keyword := (choiceName? true v).bind Keyword.ofText?

/-- The kinds of type expressions. -/
def typeKinds : List String :=
  ["keyword", "literal", "undefined", "null", "void", "any", "unknown", "array", "union",
    "intersection", "reference", "type_parameter", "object"]

/-- A list of texts that may be missing. -/
def textsOrNone (slot : Option Json) : Option (List String) := defaulted (listOf? text?) [] slot

mutual

/-- Read a type expression; a tag inside a value held in memory may be given by its position. -/
def readType (held : Bool) : Json → Option TypeExpr
  | .object ms =>
    if once ["kind"] ms then
      match (ms.lookup "kind").bind (tag? held typeKinds) with
      | some "keyword" =>
        if once ["keyword"] ms then (required Keyword.ofJson? (ms.lookup "keyword")).map .keyword
        else none
      | some "literal" =>
        if once ["value"] ms then (required Literal.ofJson? (ms.lookup "value")).map .literal
        else none
      | some "undefined" => some .undefined
      | some "null" => some .null
      | some "void" => some .void
      | some "any" => some .any
      | some "unknown" => some .unknown
      | some "array" => if once ["element"] ms then (readTypeAt "element" ms).map .array else none
      | some "union" =>
        if once ["members"] ms then (readTypesAt "members" ms).join.map .union else none
      | some "intersection" =>
        if once ["members"] ms then (readTypesAt "members" ms).join.map .intersection else none
      | some "reference" =>
        if once ["name", "arguments"] ms then
          match required text? (ms.lookup "name"), (readTypesAt "arguments" ms).getD (some []) with
          | some name, some arguments => some (.reference name arguments)
          | _, _ => none
        else none
      | some "type_parameter" =>
        if once ["name"] ms then (required text? (ms.lookup "name")).map .typeParameter else none
      | some "object" =>
        if once ["members"] ms then ((readPropertiesAt "members" ms).getD (some [])).map .object
        else none
      | _ => none
    else none
  | .list (tag :: vs) =>
    match tag? held typeKinds tag, vs with
    | some "keyword", [v] => (Keyword.ofJson? v).map .keyword
    | some "literal", [v] => (Literal.ofJson? v).map .literal
    | some "undefined", [] => some .undefined
    | some "null", [] => some .null
    | some "void", [] => some .void
    | some "any", [] => some .any
    | some "unknown", [] => some .unknown
    | some "array", [v] => (readType true v).map .array
    | some "union", [.list ts] => (readTypes ts).map .union
    | some "intersection", [.list ts] => (readTypes ts).map .intersection
    | some "reference", [.text name] => some (.reference name [])
    | some "reference", [.text name, .list ts] => (readTypes ts).map (.reference name)
    | some "type_parameter", [.text name] => some (.typeParameter name)
    | some "object", [] => some (.object [])
    | some "object", [.list ps] => (readProperties ps).map .object
    | _, _ => none
  | _ => none

/-- Read the type that the first member of a name holds. -/
def readTypeAt (name : String) : List (String × Json) → Option TypeExpr
  | [] => none
  | (k, v) :: ms => if k = name then readType true v else readTypeAt name ms

/-- Read the types that the first member of a name holds, if there is one. -/
def readTypesAt (name : String) : List (String × Json) → Option (Option (List TypeExpr))
  | [] => none
  | (k, .list ts) :: ms => if k = name then some (readTypes ts) else readTypesAt name ms
  | (k, _) :: ms => if k = name then some none else readTypesAt name ms

/-- Read the properties that the first member of a name holds, if there is one. -/
def readPropertiesAt (name : String) : List (String × Json) → Option (Option (List Property))
  | [] => none
  | (k, .list ps) :: ms => if k = name then some (readProperties ps) else readPropertiesAt name ms
  | (k, _) :: ms => if k = name then some none else readPropertiesAt name ms

/-- Read type expressions. -/
def readTypes : List Json → Option (List TypeExpr)
  | [] => some []
  | v :: vs => do
    let t ← readType true v
    let ts ← readTypes vs
    return t :: ts

/-- Read properties. -/
def readProperties : List Json → Option (List Property)
  | [] => some []
  | v :: vs => do
    let p ← readProperty v
    let ps ← readProperties vs
    return p :: ps

/-- Read a property. -/
def readProperty : Json → Option Property
  | .object ms =>
    if once ["name", "type", "optional", "docs"] ms then do
      let name ← required text? (ms.lookup "name")
      let type ← readTypeAt "type" ms
      let optional ← defaulted bool? false (ms.lookup "optional")
      let docs ← nullable text? (ms.lookup "docs")
      return ⟨name, type, optional, docs⟩
    else none
  | .list (.text name :: v :: vs) => do
    let type ← readType true v
    match vs with
    | [] => return ⟨name, type, false, none⟩
    | [.bool optional] => return ⟨name, type, optional, none⟩
    | [.bool optional, docs] => return ⟨name, type, optional, ← nullable text? (some docs)⟩
    | _ => none
  | _ => none

end

/-- Read a type expression that stands outside of a value held in memory. -/
def TypeExpr.ofJson? (v : Json) : Option TypeExpr := if v.fit then readType false v else none

/-! ## Reading decorators -/

/-- The source text of an object that stands for an expression. -/
def expressionOf? (ms : List (String × Json)) : Option String :=
  if once ["$expression"] ms then (ms.lookup "$expression").bind text? else none

mutual

/-- Read a decorator argument; null stands for none. -/
def readArgument : Json → Option Argument
  | .text s => some (.string s)
  | .number n => some (.number n)
  | .bool b => some (.boolean b)
  | .list vs => (readArguments vs).map .list
  | .object ms =>
    match expressionOf? ms with
    | some source => some (.expression source)
    | none => (readFields [] ms).map .object
  | _ => none

/-- Read decorator arguments. -/
def readArguments : List Json → Option (List Argument)
  | [] => some []
  | v :: vs => do
    let a ← readArgument v
    let rest ← readArguments vs
    return a :: rest

/-- Read the fields of an object argument into those read so far; of one name the last counts. -/
def readFields (done : List (String × Argument)) :
    List (String × Json) → Option (List (String × Argument))
  | [] => some done
  | (k, v) :: ms => do
    let a ← readArgument v
    readFields (Dict.insert k a done) ms

end

/-- Read a decorator argument. -/
def Argument.ofJson? (v : Json) : Option Argument := if v.fit then readArgument v else none

/-- Read a decorator. -/
def Decorator.ofJson? (v : Json) : Option Decorator :=
  match slots ["name", "arguments"] v with
  | some [name, arguments] => do
    return ⟨← required text? name, ← defaulted (listOf? Argument.ofJson?) [] arguments⟩
  | _ => none

/-- Decorators that may be missing. -/
def decoratorsOf? (slot : Option Json) : Option (List Decorator) :=
  defaulted (listOf? Decorator.ofJson?) [] slot

/-! ## Reading classes -/

/-- Read a parameter. -/
def Parameter.ofJson? (v : Json) : Option Parameter :=
  match slots ["name", "optional", "annotations", "type"] v with
  | some [name, optional, decorators, type] => do
    return ⟨← required text? name, ← defaulted bool? false optional, ← decoratorsOf? decorators,
      ← required TypeExpr.ofJson? type⟩
  | _ => none

/-- Read a method. -/
def Method.ofJson? (v : Json) : Option Method :=
  match slots ["name", "docs", "annotations", "parameters", "return_type"] v with
  | some [name, docs, decorators, parameters, returnType] => do
    return ⟨← required text? name, ← nullable text? docs, ← decoratorsOf? decorators,
      ← defaulted (listOf? Parameter.ofJson?) [] parameters,
      ← nullable TypeExpr.ofJson? returnType⟩
  | _ => none

/-- Read a class. -/
def ClassDecl.ofJson? (v : Json) : Option ClassDecl :=
  match slots ["name", "docs", "annotations", "methods"] v with
  | some [name, docs, decorators, methods] => do
    return ⟨← required text? name, ← nullable text? docs, ← decoratorsOf? decorators,
      ← defaulted (listOf? Method.ofJson?) [] methods⟩
  | _ => none

/-! ## Reading declarations -/

/-- Read a member of an enumeration. -/
def EnumMember.ofJson? (v : Json) : Option EnumMember :=
  match slots ["name", "value"] v with
  | some [name, value] => do
    return ⟨← required text? name, ← required Literal.ofJson? value⟩
  | _ => none

/-- Read the shape of an interface or a class from the members of its declaration. -/
def ObjectShape.ofMembers? (ms : List (String × Json)) : Option ObjectShape :=
  if once ["properties", "supertypes", "type_parameters"] ms then do
    let properties ← (readPropertiesAt "properties" ms).getD (some [])
    let supertypes ← textsOrNone (ms.lookup "supertypes")
    let typeParameters ← textsOrNone (ms.lookup "type_parameters")
    return ⟨properties, supertypes, typeParameters⟩
  else none

/-- The kinds of declarations. -/
def declarationKinds : List String := ["enum", "interface", "class", "alias"]

/-- Read the body of a declaration from its members. -/
def DeclarationBody.ofMembers? (ms : List (String × Json)) : Option DeclarationBody :=
  match (ms.lookup "kind").bind (tag? true declarationKinds) with
  | some "enum" =>
    if once ["members"] ms then
      (defaulted (listOf? EnumMember.ofJson?) [] (ms.lookup "members")).map .enumeration
    else none
  | some "interface" => (ObjectShape.ofMembers? ms).map .interface
  | some "class" => (ObjectShape.ofMembers? ms).map .classType
  | some "alias" =>
    if once ["target", "type_parameters"] ms then do
      let target ← readTypeAt "target" ms
      let typeParameters ← textsOrNone (ms.lookup "type_parameters")
      return .alias target typeParameters
    else none
  | _ => none

/-- Read a declaration; only an object holds one. -/
def Declaration.ofJson? : Json → Option Declaration
  | .object ms =>
    if once ["name", "docs", "exported", "kind"] ms && fitMembers ms then do
      let name ← required text? (ms.lookup "name")
      let docs ← nullable text? (ms.lookup "docs")
      let exported ← defaulted bool? true (ms.lookup "exported")
      let body ← DeclarationBody.ofMembers? ms
      return ⟨name, docs, exported, body⟩
    else none
  | _ => none

/-- Read a source unit. -/
def SourceUnit.ofJson? (v : Json) : Option SourceUnit :=
  match slots ["path", "classes", "declarations"] v with
  | some [path, classes, declarations] => do
    return ⟨← defaulted text? "" path, ← defaulted (listOf? ClassDecl.ofJson?) [] classes,
      ← defaulted (listOf? Declaration.ofJson?) [] declarations⟩
  | _ => none

end ApiSurface
