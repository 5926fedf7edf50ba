import ApiSurface.Artifact
import ApiSurface.Catalog.Dependence
import ApiSurface.Client.Function
import ApiSurface.Path

/-!
# Clients

A client is a unit of request functions with the declarations they depend on, either behind the
functions or in a unit of their own.

* `declarationLines`: a declaration in source notation;
* `signatureReferences`, `usedDeclarations`: the declarations a client needs;
* `emit`: the artifacts of a client.
-/

namespace ApiSurface.Client

open ApiSurface.Text

/-! ## Declarations -/

/-- Type parameters behind a name. -/
def typeParameterText (params : List String) : String :=
  if params.isEmpty then "" else "<" ++ ", ".intercalate params ++ ">"

/-- The supertypes of an interface. -/
def extendsText (supertypes : List String) : String :=
  if supertypes.isEmpty then "" else " extends " ++ ", ".intercalate supertypes

/-- A property of an interface. -/
def propertyLines (q : QuoteStyle) (p : Property) : List Line :=
  docLines p.docs ++
    [line (propertyKey q p.name ++ optionalMark p.optional ++ ": " ++ p.type.text ++ ";")]

/-- An interface; classes are emitted as interfaces too. -/
def interfaceLines (q : QuoteStyle) (name : String) (shape : ObjectShape) : List Line :=
  nested ("export interface " ++ name ++ typeParameterText shape.typeParameters ++
      extendsText shape.supertypes ++ " \x7b")
    (shape.properties.flatMap (propertyLines q)) "\x7d"

/-- The value of a member of an enumeration. -/
def enumValue (q : QuoteStyle) : Literal → String
  | .string s => q.quote s
  | v => v.text

/-- Whether a literal is a truth value, which no enumeration can hold. -/
def isTruthValue : Literal → Bool
  | .boolean _ => true
  | _ => false

/-- An enumeration; one with truth values becomes a union of literals. -/
def enumLines (q : QuoteStyle) (name : String) (members : List EnumMember) : List Line :=
  if members.any fun m => isTruthValue m.value then
    [line ("export type " ++ name ++ " = " ++
      " | ".intercalate (members.map (·.value.text)) ++ ";")]
  else
    nested ("export enum " ++ name ++ " \x7b")
      (members.map fun m => line (m.name ++ " = " ++ enumValue q m.value ++ ",")) "\x7d"

/-- A declaration without its documentation. -/
def bodyLines (q : QuoteStyle) (d : Declaration) : List Line :=
  match d.body with
  | .interface shape => interfaceLines q d.name shape
  | .classType shape => interfaceLines q d.name shape
  | .enumeration members => enumLines q d.name members
  | .alias target params =>
    [line ("export type " ++ d.name ++ typeParameterText params ++ " = " ++ target.text ++ ";")]

/-- A declaration in source notation. -/
def declarationLines (q : QuoteStyle) (d : Declaration) : List Line :=
  docLines d.docs ++ bodyLines q d

/-! ## What a client needs -/

/-- The names that the signatures of requests mention. -/
def signatureReferences (controllers : List Controller) : List String :=
  (controllers.flatMap (·.requests)).flatMap fun r =>
    r.parameters.flatMap (·.type.references) ++ r.returnType.references

/-- The declarations that the signatures depend on, in the order of the catalog. -/
def usedDeclarations (controllers : List Controller) (catalog : Catalog) : List Declaration :=
  catalog.closure (signatureReferences controllers)

/-- The import of the types that signatures mention from a unit of their own. -/
def typesImport (s : ClientSettings) (controllers : List Controller) (catalog : Catalog)
    (typesOutput : String) : Import :=
  ⟨none,
    ((usedDeclarations controllers catalog).map (·.name)).filter fun n =>
      (signatureReferences controllers).contains n,
    Path.relativeModule s.output typesOutput⟩

/-! ## Units -/

/-- A line of the header as a comment. -/
def headerLine (l : String) : String :=
  let t := trimEnd l
  if t.isEmpty then "//\n" else "// " ++ t ++ "\n"

/-- Whether a text is a comment already. -/
def isComment (s : String) : Bool :=
  ['/', '/'].isPrefixOf s.toList || ['/', '*'].isPrefixOf s.toList

/-- The header of every unit: a comment as it is, other text line by line. -/
def header (s : ClientSettings) : String :=
  match nonBlank? s.header with
  | none => ""
  | some text =>
    if isComment text then text ++ "\n\n"
    else String.join ((lines text).map headerLine) ++ "\n"

/-- The lines of the imports that a body needs, and an empty line. -/
def importText (q : QuoteStyle) (imports : List Import) (body : String) : String :=
  let needed := imports.filterMap fun i => i.pruned body
  if needed.isEmpty then "" else "\n".intercalate (needed.map (Import.text q)) ++ "\n\n"

/-- The request functions of a client. -/
def functionText (s : ClientSettings) (controllers : List Controller) : String :=
  render s.format.indent (namespaces s (callTarget s) controllers)

/-- The declarations of a client. -/
def typesText (s : ClientSettings) (controllers : List Controller) (catalog : Catalog) : String :=
  render s.format.indent
    (spaced ((usedDeclarations controllers catalog).map (declarationLines s.format.quote)))

/-- A unit that starts with the header and the imports its body needs. -/
def unitText (s : ClientSettings) (imports : List Import) (body : String) : String :=
  header s ++ importText s.format.quote imports body ++ body

/-- The artifacts of a client: the request unit, and the unit of types if there is one. -/
def artifacts (s : ClientSettings) (controllers : List Controller) (catalog : Catalog) :
    List Artifact :=
  let functions := functionText s controllers
  let types := typesText s controllers catalog
  let call := (callTarget s).imported
  match s.typesOutput with
  | some typesOutput =>
    [⟨s.output, unitText s [call, typesImport s controllers catalog typesOutput] functions⟩,
      ⟨typesOutput, header s ++ (if types.isEmpty then "export \x7b\x7d;\n" else types)⟩]
  | none =>
    let body := if types.isEmpty then functions else functions ++ "\n" ++ types
    [⟨s.output, unitText s [call] body⟩]

/-- The artifacts of a client, with notes on placeholders that nothing binds. -/
def emit (s : ClientSettings) (controllers : List Controller) (catalog : Catalog) :
    Noted (List Artifact) :=
  ⟨artifacts s controllers catalog, namespaceNotes controllers⟩

end ApiSurface.Client
