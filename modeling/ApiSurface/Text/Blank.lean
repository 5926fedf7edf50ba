/-!
# White space and lines

Trimming and line splitting as the emitted comments need them.

* `isBlank`: the characters with the property `White_Space`;
* `trim`, `trimStart`, `trimEnd`: text without blanks at its ends;
* `lines`: a text's lines without their line breaks.
-/

namespace ApiSurface.Text

/-- The characters with the Unicode property `White_Space`. -/
def isBlank (c : Char) : Bool :=
  let n := c.val.toNat
  (9 ≤ n && n ≤ 13) || n == 0x20 || n == 0x85 || n == 0xA0 || n == 0x1680 ||
    (0x2000 ≤ n && n ≤ 0x200A) || n == 0x2028 || n == 0x2029 || n == 0x202F || n == 0x205F ||
    n == 0x3000

/-- Drop the longest run of blanks at the end. -/
def dropEnd (cs : List Char) : List Char := (cs.reverse.dropWhile isBlank).reverse

/-- Text without blanks at its end. -/
def trimEnd (s : String) : String := String.ofList (dropEnd s.toList)

/-- Text without blanks at its start. -/
def trimStart (s : String) : String := String.ofList (s.toList.dropWhile isBlank)

/-- Text without blanks at either end. -/
def trim (s : String) : String := String.ofList (dropEnd (s.toList.dropWhile isBlank))

/-- The trimmed text, if anything is left of it. -/
def nonBlank? (s : Option String) : Option String :=
  (s.map trim).filter fun t => !t.isEmpty

/-- Put a character in front of the first line. -/
def consLine (c : Char) : List (List Char) → List (List Char)
  | [] => [[c]]
  | l :: ls => (c :: l) :: ls

/-- A line ends at a line feed and loses one carriage return right before it. -/
def splitLines : List Char → List (List Char)
  | [] => []
  | '\n' :: r => [] :: splitLines r
  | '\r' :: '\n' :: r => [] :: splitLines r
  | c :: r => consLine c (splitLines r)

/-- The lines of a text; what follows the last line feed is a line unless it is empty. -/
def lines (s : String) : List String := (splitLines s.toList).map String.ofList

/-- The pieces between the occurrences of a separator; always at least one. -/
def splitAll (p : Char → Bool) : List Char → List (List Char)
  | [] => [[]]
  | c :: r => if p c then [] :: splitAll p r else consLine c (splitAll p r)

/-- Put a byte in front of the first piece. -/
def consPiece (b : UInt8) : List (List UInt8) → List (List UInt8)
  | [] => [[b]]
  | p :: ps => (b :: p) :: ps

/-- The pieces of bytes between the occurrences of one of them. -/
def splitBytes (sep : UInt8) : List UInt8 → List (List UInt8)
  | [] => [[]]
  | b :: r => if b = sep then [] :: splitBytes sep r else consPiece b (splitBytes sep r)

/-- The pieces of a text between the occurrences of one character. -/
def splitOn (sep : Char) (s : String) : List String :=
  (splitAll (· == sep) s.toList).map String.ofList

/-- Replace every occurrence of one character by a text. -/
def replaceChar (c : Char) (by_ : List Char) (cs : List Char) : List Char :=
  cs.flatMap fun x => if x = c then by_ else [x]

end ApiSurface.Text
