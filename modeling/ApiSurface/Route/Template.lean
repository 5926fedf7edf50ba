import ApiSurface.Text.Word

/-!
# Url templates

A template is literal text with placeholders `:name`, where a name is the longest identifier after
the colon.

* `Piece`, `pieces`: a template cut at its placeholders;
* `Piece.source`: the text a piece was cut from;
* `fields`: the names of the placeholders, in order;
* `documentPath`: the template in the notation of documents, `{name}`.
-/

namespace ApiSurface.Route

open ApiSurface.Text

/-- A character of literal text, or a placeholder. -/
inductive Piece
  | literal (char : Char)
  | field (name : List Char)
deriving DecidableEq, Repr

/-- The text a piece was cut from. -/
def Piece.source : Piece → List Char
  | literal c => [c]
  | field name => ':' :: name

/-- Cut a text into pieces; `skip` characters belong to the placeholder before them. -/
def cut : (skip : Nat) → List Char → List Piece
  | _, [] => []
  | skip + 1, _ :: cs => cut skip cs
  | 0, ':' :: c :: cs =>
    if isIdentStart c then
      .field (c :: cs.takeWhile isIdentPart) ::
        cut ((cs.takeWhile isIdentPart).length + 1) (c :: cs)
    else .literal ':' :: cut 0 (c :: cs)
  | 0, c :: cs => .literal c :: cut 0 cs

/-- The pieces of a template. -/
def pieces (template : String) : List Piece := cut 0 template.toList

/-- The name of a placeholder. -/
def Piece.field? : Piece → Option String
  | literal _ => none
  | field name => some (String.ofList name)

/-- The names of the placeholders of a template, in order. -/
def fields (template : String) : List String := (pieces template).filterMap Piece.field?

/-- A piece in the notation of documents. -/
def Piece.documented : Piece → List Char
  | literal c => [c]
  | field name => '\x7b' :: (name ++ ['\x7d'])

/-- A template in the notation of documents. -/
def documentPath (template : String) : String :=
  String.ofList ((pieces template).flatMap Piece.documented)

end ApiSurface.Route
