import ApiSurface.Settings.Value

/-!
# Writing TOML

* `textForm`: the form in which a text is written, the plainest that can hold it;
* `valueText`: a value behind its key;
* `write`: entries as a document, scalars and lists before the tables.

Keys are written as they are: those of settings are bare.
-/

namespace ApiSurface.Toml

/-! ## Texts -/

/-- The forms of a text: with escapes or literal, on one line or several. -/
inductive TextForm
  | basic
  | literal
  | basicBlock
  | literalBlock
deriving DecidableEq, Repr

/-- Characters that only an escape can stand for. -/
def isControl (c : Char) : Bool :=
  (c.val.toNat < 0x20 && c != '\t' && c != '\n') || c.val.toNat == 0x7F

/-- The length of the longest run of a character. -/
def longestRun (q : Char) : (here longest : Nat) → List Char → Nat
  | here, longest, [] => max here longest
  | here, longest, c :: r =>
    if c = q then longestRun q (here + 1) longest r else longestRun q 0 (max here longest) r

/-- The form of a text: without escapes where there is one, on one line where it has one. -/
def textForm (cs : List Char) : TextForm :=
  let controls := cs.any isControl
  let lines := cs.contains '\n'
  let slashes := cs.contains '\\'
  if !controls && !slashes && !cs.contains '"' && !lines then .basic
  else if !controls && !cs.contains '\'' && !lines then .literal
  else if !controls && !slashes && longestRun '"' 0 0 cs ≤ 2 then .basicBlock
  else if !controls && longestRun '\'' 0 0 cs ≤ 2 then .literalBlock
  else if lines then .basicBlock
  else .basic

/-- A hexadecimal digit. -/
def hexDigit (n : Nat) : Char := (Nat.digitChar n).toUpper

/-- A character that is written by an escape. -/
def escapeOf? (c : Char) : Option (List Char) :=
  if c = '\x08' then some ['\\', 'b']
  else if c = '\t' then some ['\\', 't']
  else if c = '\x0c' then some ['\\', 'f']
  else if c = '\r' then some ['\\', 'r']
  else if c = '\\' then some ['\\', '\\']
  else if isControl c then
    some ['\\', 'u', '0', '0', hexDigit (c.val.toNat / 16), hexDigit (c.val.toNat % 16)]
  else none

/-- The characters of a text on one line. -/
def lineBody (cs : List Char) : List Char :=
  cs.flatMap fun c =>
    if c = '\n' then ['\\', 'n']
    else if c = '"' then ['\\', '"']
    else (escapeOf? c).getD [c]

/-- The characters of a text over several lines: of three quotes in a row the last is escaped. -/
def blockBody : (quotes : Nat) → List Char → List Char
  | _, [] => []
  | quotes, c :: r =>
    if c = '"' then
      if quotes = 2 then '\\' :: '"' :: blockBody 0 r else '"' :: blockBody (quotes + 1) r
    else (escapeOf? c).getD [c] ++ blockBody 0 r

/-- A text in its form. A block starts on a line of its own if it holds a line break. -/
def textOf (cs : List Char) : List Char :=
  let start := if cs.contains '\n' then ['\n'] else []
  match textForm cs with
  | .basic => '"' :: lineBody cs ++ ['"']
  | .literal => '\'' :: cs ++ ['\'']
  | .basicBlock => '"' :: '"' :: '"' :: start ++ blockBody 0 cs ++ ['"', '"', '"']
  | .literalBlock => '\'' :: '\'' :: '\'' :: start ++ cs ++ ['\'', '\'', '\'']

/-! ## Values -/

/-- A double: always with a point. -/
def realText : Real → String
  | .finite x => if x.plain.toList.contains '.' then x.plain else x.plain ++ ".0"
  | .infinite negative => if negative then "-inf" else "inf"
  | .nan => "nan"

/-- A list of written items: on one line if there is at most one. -/
def listText : List String → String
  | [] => "[]"
  | [s] => "[" ++ s ++ "]"
  | ss => "[\n" ++ String.join (ss.map fun s => "    " ++ s ++ ",\n") ++ "]"

mutual

/-- A value behind its key. -/
def valueText : Value → String
  | .nothing => ""
  | .bool b => if b then "true" else "false"
  | .integer n => toString n
  | .real r => realText r
  | .text s => String.ofList (textOf s.toList)
  | .list vs => listText (itemTexts vs)
  | .table es => "\x7b " ++ ", ".intercalate (memberTexts es) ++ " \x7d"

/-- The items of a list. -/
def itemTexts : List Value → List String
  | [] => []
  | v :: vs => valueText v :: itemTexts vs

/-- The members of a table on one line. -/
def memberTexts : List (String × Value) → List String
  | [] => []
  | (k, v) :: es => (k ++ " = " ++ valueText v) :: memberTexts es

end

/-! ## Documents -/

/-- A value that is a table. -/
def isTable : Value → Bool
  | .table _ => true
  | _ => false

/-- A value that stands on a line below the header of its table; nothing is left out. -/
def isLine : Value → Bool
  | .nothing => false
  | .table _ => false
  | .list vs => vs.isEmpty || !vs.all isTable
  | _ => true

/-- The lines of a table. -/
def lineTexts (es : List (String × Value)) : List String :=
  (es.filter fun e => isLine e.2).map fun e => e.1 ++ " = " ++ valueText e.2 ++ "\n"

/-- The path of a table in a header. -/
def pathText (path : List String) : String := ".".intercalate path

/-- A header with the lines below it. -/
def sectionText (header : String) (lines : List String) : String :=
  header ++ "\n" ++ String.join lines

/-- The section of a table; one that holds only other tables needs none. -/
def tableSection (path : List String) (es : List (String × Value)) : List String :=
  if (lineTexts es).isEmpty ∧ !es.isEmpty then []
  else [sectionText ("[" ++ pathText path ++ "]") (lineTexts es)]

/-- The section of a table in a list of tables. -/
def itemSection (path : List String) (es : List (String × Value)) : String :=
  sectionText ("[[" ++ pathText path ++ "]]") (lineTexts es)

mutual

/-- The sections of what stands under a path. -/
def sections (path : List String) : Value → List String
  | .table es => tableSection path es ++ entrySections path es
  | .list vs => if vs.all isTable then itemSections path vs else []
  | _ => []

/-- The sections of the entries of a table. -/
def entrySections (path : List String) : List (String × Value) → List String
  | [] => []
  | (k, v) :: es => sections (path ++ [k]) v ++ entrySections path es

/-- The sections of a list of tables. -/
def itemSections (path : List String) : List Value → List String
  | [] => []
  | .table es :: vs => itemSection path es :: (entrySections path es ++ itemSections path vs)
  | _ :: vs => itemSections path vs

end

/-- Entries as a document, a blank line between its sections. -/
def write (es : List (String × Value)) : String :=
  let top := if (lineTexts es).isEmpty then [] else [String.join (lineTexts es)]
  "\n".intercalate (top ++ entrySections [] es)

end ApiSurface.Toml
