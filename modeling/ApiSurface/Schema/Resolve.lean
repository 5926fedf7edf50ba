import ApiSurface.Catalog.Cycle
import ApiSurface.Schema.Basic

/-!
# Schemas of types and declarations

* `resolve`: the schema of a type, if it has one; what it cannot express becomes a placeholder and a
  note about the given subject;
* `synthesize`: the schema of a declaration.

Without a catalog every reference is trusted. Members of unions and intersections without a schema
are dropped, equal members are kept once, and a single member stands on its own.
-/

namespace ApiSurface

/-- One member stands on its own, several are wrapped. -/
def collapse (wrap : List Schema → Schema) : List Schema → Option Schema
  | [] => none
  | [s] => some s
  | ss => some (wrap ss)

/-- Whether a name is declared, where there is a catalog to look it up in. -/
def isKnown (catalog : Option Catalog) (name : String) : Bool :=
  catalog.all fun c => c.contains name

/-- The schema of a reference by name alone. -/
def resolveName (catalog : Option Catalog) (subject name : String) : Noted (Option Schema) :=
  if isKnown catalog name then pure (some (.reference name))
  else ⟨some .unknown, [Note.unresolved subject name]⟩

/-- The names of lists. -/
def isListName (name : String) : Bool := name = "Array" || name = "ReadonlyArray"

mutual

/-- The schema of a type, with notes about the subject; some types have none. -/
def resolve (catalog : Option Catalog) (subject : String) : TypeExpr → Noted (Option Schema)
  | .undefined => pure none
  | .null => pure none
  | .void => pure none
  | .keyword k => pure (some (.ofKeyword k))
  | .literal v => pure (some (.ofKeyword v.kind))
  | .array e => do
    let items ← resolve catalog subject e
    return some (.array (items.getD .unknown))
  | .union ms => do
    let members ← resolveAll catalog subject ms
    return collapse .anyOf (Schema.distinct [] members)
  | .intersection ms => do
    let members ← resolveAll catalog subject ms
    return collapse .allOf (Schema.distinct [] members)
  | .reference name [] =>
    if name = "Date" then pure (some .dateTime) else resolveName catalog subject name
  | .reference name [a] =>
    if name = "Promise" then resolve catalog subject a
    else if isListName name then do
      let items ← resolve catalog subject a
      return some (.array (items.getD .unknown))
    else ⟨some .emptyObject, [Note.genericArguments subject name 1]⟩
  | .reference name arguments =>
    ⟨some .emptyObject, [Note.genericArguments subject name arguments.length]⟩
  | .typeParameter name => ⟨some .unknown, [Note.typeParameter subject name]⟩
  | .object _ => pure (some .emptyObject)
  | .any => pure (some .unknown)
  | .unknown => pure (some .unknown)

/-- The schemas of those types that have one. -/
def resolveAll (catalog : Option Catalog) (subject : String) : List TypeExpr → Noted (List Schema)
  | [] => pure []
  | t :: ts => do
    let s ← resolve catalog subject t
    let ss ← resolveAll catalog subject ts
    return s.toList ++ ss

end

/-! ## Declarations -/

/-- The schema of an enumeration: its values, if they are of one primitive type. -/
def synthesizeEnum (name : String) (members : List EnumMember) : Noted Schema :=
  match members with
  | [] => pure (.ofKeyword .string)
  | first :: _ =>
    if members.all fun m => m.value.kind = first.value.kind then
      pure (.primitive ⟨first.value.kind, none, members.map (·.value)⟩)
    else ⟨.ofKeyword .string, [Note.mixedEnum name]⟩

/-- The schemas of those properties that have one. -/
def synthesizeProperties (catalog : Option Catalog) (owner : String) :
    List Property → Noted (List PropertySchema)
  | [] => pure []
  | p :: ps => do
    let s ← resolve catalog (owner ++ "." ++ p.name) p.type
    let rest ← synthesizeProperties catalog owner ps
    return (s.map fun s => ⟨p.name, s, p.docs, !p.optional⟩).toList ++ rest

/-- The properties that a declaration describes itself. -/
def describedProperties (catalog : Option Catalog) (d : Declaration) : List Property :=
  match catalog with
  | none => d.properties
  | some c => c.ownProperties d

/-- The schema of an interface or a class: an object, together with references to its supertypes. -/
def synthesizeObject (catalog : Option Catalog) (d : Declaration) : Noted Schema := do
  let properties ← synthesizeProperties catalog d.name (describedProperties catalog d)
  let object : Schema := .object d.docs properties
  let supertypes := d.supertypes.filter (isKnown catalog)
  if supertypes.isEmpty then return object
  else return .allOf (supertypes.map .reference ++ [object])

/-- The schema of a declaration. -/
def synthesize (catalog : Option Catalog) (d : Declaration) : Noted Schema :=
  match d.body with
  | .interface _ => synthesizeObject catalog d
  | .classType _ => synthesizeObject catalog d
  | .enumeration members => synthesizeEnum d.name members
  | .alias target _ => do
    let s ← resolve catalog d.name target
    return s.getD .unknown

end ApiSurface
