import ApiSurface.Settings.Basic
import ApiSurface.Text.Word

/-!
# Imports

* `code`: source text with a blank for each comment and each string or template literal;
* `Import`, `Import.pruned`: an import, and what is left of it for the names that code uses;
* `Import.text`: an import as a line.
-/

namespace ApiSurface.Client

open ApiSurface.Text

/-! ## Code without comments and literals -/

/-- What follows the end of a block comment. -/
def blockEnd : List Char → Option (List Char)
  | [] => none
  | '*' :: '/' :: r => some r
  | _ :: r => blockEnd r

/-- What follows the closing delimiter of a literal; a backslash goes together with the next
character, and only some literals may run over several lines. -/
def literalEnd (q : Char) (manyLines : Bool) : List Char → Option (List Char)
  | [] => none
  | '\\' :: _ :: r => literalEnd q manyLines r
  | ['\\'] => none
  | c :: r =>
    if c = q then some r
    else if c = '\n' ∧ !manyLines then none
    else literalEnd q manyLines r

/-- What follows the comment or literal that a text starts with. -/
def afterNonCode : List Char → Option (List Char)
  | '/' :: '*' :: r => blockEnd r
  | '/' :: '/' :: r => some (r.dropWhile (· != '\n'))
  | '"' :: r => literalEnd '"' false r
  | '\'' :: r => literalEnd '\'' false r
  | '`' :: r => literalEnd '`' true r
  | _ => none

/-- Put a blank for each comment and literal; `skip` characters belong to the one before them. -/
def codeFrom : (skip : Nat) → List Char → List Char
  | _, [] => []
  | skip + 1, _ :: r => codeFrom skip r
  | 0, c :: r =>
    match afterNonCode (c :: r) with
    | none => c :: codeFrom 0 r
    | some rest => ' ' :: codeFrom (r.length - rest.length) r

/-- Source text with a blank for each comment and each literal. -/
def code (source : String) : String := String.ofList (codeFrom 0 source.toList)

/-! ## Imports -/

/-- An import of a default binding and of named ones. -/
structure Import where
  primary : Option String
  named : List String
  moduleName : String
deriving DecidableEq, Repr

namespace Import

/-- The bindings that code mentions; nothing without any. -/
def pruned (i : Import) (body : String) : Option Import :=
  let uses := mentions (code body)
  let primary := i.primary.filter uses
  let named := i.named.filter uses
  if primary.isNone && named.isEmpty then none else some ⟨primary, named, i.moduleName⟩

/-- An import as a line. -/
def text (q : QuoteStyle) (i : Import) : String :=
  let named := if i.named.isEmpty then [] else ["\x7b " ++ ", ".intercalate i.named ++ " \x7d"]
  "import " ++ ", ".intercalate (i.primary.toList ++ named) ++
    " from " ++ q.quote i.moduleName ++ ";"

end Import

end ApiSurface.Client
