import ApiSurface.Text.WordTable

/-!
# Words and identifiers

* `isWord`: the characters of a word;
* `mentions`: a name stands in a text with a word boundary on either side;
* `isIdentStart`, `isIdentPart`, `isIdentifier`: names that need no quotes as property keys.
-/

namespace ApiSurface.Text

/-- ASCII letters, digits and the low line. -/
def isAsciiWord (c : Char) : Bool := c.isAlphanum || c == '_'

/-- The characters of a word: alphabetic, mark, decimal digit, connector punctuation, join
control. -/
def isWord (c : Char) : Bool :=
  if c.val.toNat < 128 then isAsciiWord c
  else wordRanges.any fun r => r.1 ≤ c.val.toNat && c.val.toNat ≤ r.2

/-- A word boundary lies between two neighbours of which exactly one is a word character. -/
def isBoundary (before after : Option Char) : Bool := before.any isWord != after.any isWord

/-- The name stands at the front of the text, with a boundary before and behind it. -/
def mentionedAt (name : List Char) (before : Option Char) (text : List Char) : Bool :=
  name.isPrefixOf text && isBoundary before text.head? &&
    isBoundary (match name.getLast? with | none => before | some c => some c)
      (text.drop name.length).head?

/-- The name stands somewhere in the text, with a boundary before and behind it. -/
def mentionedFrom (name : List Char) (before : Option Char) : List Char → Bool
  | [] => mentionedAt name before []
  | c :: r => mentionedAt name before (c :: r) || mentionedFrom name (some c) r

/-- The name stands in the text as a whole word. -/
def mentions (text name : String) : Bool := mentionedFrom name.toList none text.toList

/-! ## Identifiers -/

/-- The first character of an identifier. -/
def isIdentStart (c : Char) : Bool := c.isAlpha || c == '_' || c == '$'

/-- A later character of an identifier. -/
def isIdentPart (c : Char) : Bool := c.isAlphanum || c == '_' || c == '$'

/-- A name that stands on its own as a property key. -/
def isIdentifier (name : String) : Bool :=
  match name.toList with
  | [] => false
  | c :: cs => isIdentStart c && cs.all isIdentPart

end ApiSurface.Text
