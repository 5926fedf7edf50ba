import ApiSurface.Settings.Numeral

/-!
# Places in a YAML text

* `Key`, `Node`: what is read of a text: a node has a value and may be a key;
* `Cursor`: what is left of a text, with the place of its first character and what is known so far;
* `Cursor.skip`: the place behind blanks, line breaks and comments.
-/

namespace ApiSurface.Yaml

/-- What can be the key of a mapping. -/
inductive Key
  | bool (value : Bool)
  | integer (value : Int)
  | real (text : String)
  | text (value : String)
deriving DecidableEq, Repr

/-- The name of an entry under a key. -/
def Key.name : Key → String
  | bool b => if b then "true" else "false"
  | integer n => toString n
  | real s => s
  | text s => s

/-- A node: the key that it can be, and its value, if it has one. -/
structure Node where
  key : Option Key
  value : Option Value

/-- Nothing, written or not. -/
def Node.null : Node := ⟨none, some .nothing⟩

/-- A text. -/
def Node.text (s : String) : Node := ⟨some (.text s), some (.text s)⟩

/-- What is left of a text. `leading` says that only blanks stand before it on its line, and `apart`
that a blank or a line break does; `anchors` and `handles` are what was named on the way. -/
structure Cursor where
  rest : List Char
  line : Nat
  col : Nat
  leading : Bool
  apart : Bool
  anchors : List (String × Node)
  handles : List (String × String)

/-! ## Characters -/

/-- Blanks on a line. -/
def isBlank (c : Char) : Bool := c == ' ' || c == '\t'

/-- Line breaks. -/
def isBreak (c : Char) : Bool := c == '\n' || c == '\r'

/-- Characters that structure flow collections. -/
def isFlowMark (c : Char) : Bool :=
  c == ',' || c == '[' || c == ']' || c == '\x7b' || c == '\x7d'

/-- Whether a text ends here, or a blank or a line break comes. -/
def isGap (cs : List Char) : Bool := cs.head?.all fun c => isBlank c || isBreak c

/-- Whether a line ends here. -/
def isLineEnd (cs : List Char) : Bool := cs.head?.all isBreak

/-- What follows a line break. -/
def afterBreak : List Char → List Char
  | '\r' :: '\n' :: r => r
  | _ :: r => r
  | [] => []

namespace Cursor

/-- The place behind a number of characters on the same line. -/
def step (n : Nat) (c : Cursor) : Cursor :=
  { c with rest := c.rest.drop n, col := c.col + n, leading := false, apart := false }

/-- The place at what is left of a line. -/
def jump (rest : List Char) (c : Cursor) : Cursor := c.step (c.rest.length - rest.length)

/-- The place behind a blank. -/
def blank (c : Cursor) : Cursor := { c with rest := c.rest.drop 1, col := c.col + 1, apart := true }

/-- The place behind a line break. -/
def newLine (c : Cursor) : Cursor :=
  { c with rest := afterBreak c.rest, line := c.line + 1, col := 0, leading := true, apart := true }

/-- The place behind all blanks on the line. -/
def blanks (c : Cursor) : Cursor :=
  let n := (c.rest.takeWhile isBlank).length
  if n = 0 then c else { c with rest := c.rest.drop n, col := c.col + n, apart := true }

/-- The place at the end of the line. -/
def lineEnd (c : Cursor) : Cursor := c.jump (c.rest.dropWhile fun x => !isBreak x)

/-- Whether the line ends here, up to blanks and a comment. -/
def endsLine (c : Cursor) : Bool :=
  let d := c.blanks
  isLineEnd d.rest || (d.apart && d.rest.head? == some '#')

/-- Whether three characters at the start of a line are a mark between documents. -/
def isMark (mark : List Char) (c : Cursor) : Bool :=
  c.col == 0 && mark.isPrefixOf c.rest && isGap (c.rest.drop 3)

/-- Whether a document starts here with its mark. -/
def isStart (c : Cursor) : Bool := c.isMark ['-', '-', '-']

/-- Whether a document ends here with its mark. -/
def isStop (c : Cursor) : Bool := c.isMark ['.', '.', '.']

/-- Whether a document cannot go on here. -/
def atEnd (c : Cursor) : Bool := c.rest.isEmpty || c.isStart || c.isStop

/-- Whether a character with a gap behind it is next. -/
def isIndicator (mark : Char) (c : Cursor) : Bool :=
  match c.rest with
  | x :: r => x == mark && isGap r
  | [] => false

/-- The place behind blanks, line breaks and comments. A tab does not indent what is to stand in a
column from `floor` on. The fuel bounds the number of steps. -/
def skipSteps (floor : Nat) : (fuel : Nat) → Cursor → Option Cursor
  | 0, c => some c
  | fuel + 1, c =>
    match c.rest with
    | [] => some c
    | x :: _ =>
      if x = '\t' ∧ c.leading ∧ c.col < floor ∧ !c.endsLine then none
      else if isBlank x then skipSteps floor fuel c.blank
      else if isBreak x then skipSteps floor fuel c.newLine
      else if x = '#' ∧ c.apart then skipSteps floor fuel c.lineEnd
      else some c

/-- The place behind blanks, line breaks and comments. -/
def skip (floor : Nat) (c : Cursor) : Option Cursor := skipSteps floor (c.rest.length + 1) c

end Cursor

end ApiSurface.Yaml
