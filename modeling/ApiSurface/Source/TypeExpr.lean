import ApiSurface.Number.Basic
import ApiSurface.Text.Quote
import ApiSurface.Text.Word

/-!
# Type expressions

The types of parameters, properties and results, as a front end resolved them.

* `Keyword`, `Literal`: primitive types and their values;
* `TypeExpr`, `Property`: type expressions and the members of object types;
* `TypeExpr.text`: a type in source notation, with parentheses where `&` and `[]` need them;
* `TypeExpr.unwrapPromise`, `TypeExpr.references`: the awaited type, the names a type mentions.
-/

namespace ApiSurface

open ApiSurface.Text

/-- The primitive types. -/
inductive Keyword
  | string
  | number
  | boolean
deriving DecidableEq, Repr

/-- The name of a primitive type. -/
def Keyword.text : Keyword → String
  | string => "string"
  | number => "number"
  | boolean => "boolean"

/-- The primitive type of a name. -/
def Keyword.ofText? : String → Option Keyword
  | "string" => some string
  | "number" => some number
  | "boolean" => some boolean
  | _ => none

/-- A value of a primitive type. -/
inductive Literal
  | string (value : String)
  | number (value : Number)
  | boolean (value : Bool)
deriving DecidableEq, Repr

namespace Literal

/-- The primitive type of a literal. -/
def kind : Literal → Keyword
  | string _ => .string
  | number _ => .number
  | boolean _ => .boolean

/-- A literal in source notation. -/
def text : Literal → String
  | string s => quoted '"' s
  | number n => n.text
  | boolean b => if b then "true" else "false"

end Literal

mutual

/-- A resolved type expression. -/
inductive TypeExpr
  | keyword (keyword : Keyword)
  | literal (value : Literal)
  | undefined
  | null
  | void
  | any
  | unknown
  | array (element : TypeExpr)
  | union (members : List TypeExpr)
  | intersection (members : List TypeExpr)
  | reference (name : String) (arguments : List TypeExpr)
  | typeParameter (name : String)
  | object (members : List Property)
deriving Repr

/-- A property of an object type, an interface or a class. -/
structure Property where
  name : String
  type : TypeExpr
  optional : Bool
  docs : Option String
deriving Repr

end

instance : Inhabited TypeExpr := ⟨.void⟩

/-- A property key in source notation, quoted unless it is an identifier. -/
def keyText (name : String) : String := if isIdentifier name then name else quoted '"' name

/-- The mark of an optional parameter or property. -/
def optionalMark (optional : Bool) : String := if optional then "?" else ""

namespace TypeExpr

/-- A union or intersection, which an array of it puts in parentheses. -/
def isCompound : TypeExpr → Bool
  | union _ => true
  | intersection _ => true
  | _ => false

/-- A union, which an intersection puts in parentheses. -/
def isUnion : TypeExpr → Bool
  | union _ => true
  | _ => false

/-- A text in parentheses, if needed. -/
def parenthesized (needed : Bool) (s : String) : String := if needed then "(" ++ s ++ ")" else s

mutual

/-- A type in source notation. -/
def text : TypeExpr → String
  | keyword k => k.text
  | literal v => v.text
  | undefined => "undefined"
  | null => "null"
  | void => "void"
  | any => "any"
  | unknown => "unknown"
  | array e => parenthesized e.isCompound e.text ++ "[]"
  | union ms => " | ".intercalate (texts ms)
  | intersection ms => " & ".intercalate (operands ms)
  | reference name arguments =>
    if arguments.isEmpty then name else name ++ "<" ++ ", ".intercalate (texts arguments) ++ ">"
  | typeParameter name => name
  | object ms =>
    if ms.isEmpty then "\x7b\x7d" else "\x7b " ++ "; ".intercalate (propertyTexts ms) ++ " \x7d"

/-- Each type in source notation. -/
def texts : List TypeExpr → List String
  | [] => []
  | t :: ts => t.text :: texts ts

/-- Each type as an operand of `&`. -/
def operands : List TypeExpr → List String
  | [] => []
  | t :: ts => parenthesized t.isUnion t.text :: operands ts

/-- Each property in source notation. -/
def propertyTexts : List Property → List String
  | [] => []
  | ⟨name, type, optional, _⟩ :: ps =>
    (keyText name ++ optionalMark optional ++ ": " ++ type.text) :: propertyTexts ps

end

/-- The type a promise of one argument holds; any other type is itself. -/
def unwrapPromise : TypeExpr → TypeExpr
  | reference "Promise" [inner] => inner
  | t => t

mutual

/-- The names of the references in a type, in the order of its text. -/
def references : TypeExpr → List String
  | reference name arguments => name :: referencesOf arguments
  | array e => e.references
  | union ms => referencesOf ms
  | intersection ms => referencesOf ms
  | object ms => propertyReferences ms
  | _ => []

/-- The names of the references in several types. -/
def referencesOf : List TypeExpr → List String
  | [] => []
  | t :: ts => t.references ++ referencesOf ts

/-- The names of the references in the types of properties. -/
def propertyReferences : List Property → List String
  | [] => []
  | ⟨_, type, _, _⟩ :: ps => type.references ++ propertyReferences ps

end

end TypeExpr

end ApiSurface
