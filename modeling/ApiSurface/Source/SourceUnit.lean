import ApiSurface.Source.TypeExpr

/-!
# Source units

What is known about one source file: its decorated classes and its type declarations.

* `Argument`, `Decorator`: markers on classes, methods and parameters;
* `Parameter`, `Method`, `ClassDecl`: the classes;
* `Declaration`: enumerations, interfaces, classes as types, and aliases;
* `SourceUnit`: all of a file.
-/

namespace ApiSurface

open ApiSurface.Text

/-- A literal argument of a decorator; other expressions are kept as their text. -/
inductive Argument
  | string (value : String)
  | number (value : Number)
  | boolean (value : Bool)
  | list (items : List Argument)
  | expression (source : String)
  | object (fields : List (String × Argument))
deriving Repr

namespace Argument

/-- The text of a string argument. -/
def string? : Argument → Option String
  | string s => some s
  | _ => none

/-- A short description for messages. -/
def describe : Argument → String
  | string s => "string \"" ++ s ++ "\""
  | number n => "number " ++ n.text
  | boolean b => "boolean " ++ (if b then "true" else "false")
  | list _ => "array with non-string elements"
  | expression source => "expression `" ++ source ++ "`"
  | object _ => "object literal"

end Argument

/-- A marker on a class, a method or a parameter. -/
structure Decorator where
  name : String
  arguments : List Argument
deriving Repr

/-- The first argument of a decorator. -/
def Decorator.first? (a : Decorator) : Option Argument := a.arguments.head?

/-- A parameter of a method. -/
structure Parameter where
  name : String
  optional : Bool
  decorators : List Decorator
  type : TypeExpr
deriving Repr

/-- A method of a class. -/
structure Method where
  name : String
  docs : Option String
  decorators : List Decorator
  parameters : List Parameter
  returnType : Option TypeExpr
deriving Repr

/-- A class with its decorators and methods. -/
structure ClassDecl where
  name : String
  docs : Option String
  decorators : List Decorator
  methods : List Method
deriving Repr

/-! ## Type declarations -/

/-- A member of an enumeration. -/
structure EnumMember where
  name : String
  value : Literal
deriving DecidableEq, Repr

/-- What interfaces and classes have in common. -/
structure ObjectShape where
  properties : List Property
  supertypes : List String
  typeParameters : List String
deriving Repr

/-- The kinds of declarations. -/
inductive DeclarationBody
  | enumeration (members : List EnumMember)
  | interface (shape : ObjectShape)
  | classType (shape : ObjectShape)
  | alias (target : TypeExpr) (typeParameters : List String)
deriving Repr

/-- A named type. -/
structure Declaration where
  name : String
  docs : Option String
  exported : Bool
  body : DeclarationBody
deriving Repr

namespace Declaration

/-- The shape of an interface or a class. -/
def shape? (d : Declaration) : Option ObjectShape :=
  match d.body with
  | .interface shape => some shape
  | .classType shape => some shape
  | _ => none

/-- The properties of an interface or a class. -/
def properties (d : Declaration) : List Property := (d.shape?.map (·.properties)).getD []

/-- The names of the supertypes of an interface or a class. -/
def supertypes (d : Declaration) : List String := (d.shape?.map (·.supertypes)).getD []

/-- The word for the kind of a declaration. -/
def kindName (d : Declaration) : String :=
  match d.body with
  | .enumeration _ => "enum"
  | .interface _ => "interface"
  | .classType _ => "class"
  | .alias _ _ => "alias"

/-- The references in the target of an alias. -/
def targetReferences (d : Declaration) : List String :=
  match d.body with
  | .alias target _ => target.references
  | _ => []

/-- The names a declaration depends on: supertypes, references in property types, alias target. -/
def links (d : Declaration) : List String :=
  d.supertypes ++ TypeExpr.propertyReferences d.properties ++ d.targetReferences

end Declaration

/-- What is known about one source file. -/
structure SourceUnit where
  path : String
  classes : List ClassDecl
  declarations : List Declaration
deriving Repr

end ApiSurface
