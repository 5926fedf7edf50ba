import ApiSurface.Json.Basic
import ApiSurface.Settings.Value
import ApiSurface.Text.Blank
import ApiSurface.Text.CodePoint

/-!
# INI files

Keys and values, one pair a line, under headings in brackets. Every value is a text.

* `textUntil`: a text up to one of some characters, with its escapes;
* `value`: what stands behind a key;
* `Ini.read?`: the entries of a file: the keys without a heading, and a table for each heading.
-/

namespace ApiSurface.Ini

open ApiSurface.Text (codedChar trim trimEnd)

/-! ## Texts -/

/-- Up to four hexadecimal digits behind a sign are a code point, too. -/
def codedEscape : List Char → Option (Char × List Char)
  | '+' :: r => codedChar 3 r
  | r => codedChar 4 r

/-- What a backslash and what follows it stand for. A line break vanishes with the character behind
it. -/
def escaped : List Char → Option (List Char × List Char)
  | [] => none
  | '0' :: r => some (['\x00'], r)
  | 'a' :: r => some (['\x07'], r)
  | 'b' :: r => some (['\x08'], r)
  | 't' :: r => some (['\t'], r)
  | 'r' :: r => some (['\r'], r)
  | 'n' :: r => some (['\n'], r)
  | '\n' :: r => some ([], r.drop 1)
  | 'x' :: r => (codedEscape r).map fun p => ([p.1], p.2)
  | c :: r => some ([c], r)

/-- A text up to one of some characters, which is left, or, if it may, up to the end of all. The
fuel bounds its length. -/
def textUntil (stops : List Char) (mayEnd : Bool) :
    (fuel : Nat) → List Char → Option (List Char × List Char)
  | 0, _ => none
  | _ + 1, [] => if mayEnd then some ([], []) else none
  | fuel + 1, c :: r =>
    if stops.contains c then some ([], c :: r)
    else do
      let (front, r) ← if c = '\\' then escaped r else some ([c], r)
      let (cs, r) ← textUntil stops mayEnd fuel r
      return (front ++ cs, r)

/-- A text up to one of some characters that must follow it, without blanks at its ends. -/
def textBefore (stops : List Char) (cs : List Char) : Option (String × List Char) :=
  (textUntil stops false (cs.length + 1) cs).map fun p => (trim (String.ofList p.1), p.2)

/-! ## Values -/

/-- The parts of a value in quotes, one behind the other, and the rest of the line. Only a rest that
comes first loses the blanks in front of it. -/
def parts (first : Bool) : (fuel : Nat) → List Char → Option (String × List Char)
  | 0, _ => none
  | _ + 1, [] => some ("", [])
  | fuel + 1, c :: r =>
    if c = '"' ∨ c = '\'' then do
      let (front, r) ← textUntil [c] false (r.length + 1) r
      let (s, r) ← parts false fuel (r.drop 1)
      return (String.ofList front ++ s, r)
    else do
      let (cs, r) ← textUntil ['\n', '\r'] true (r.length + 2) (c :: r)
      let s := String.ofList cs
      return (if first then trim s else trimEnd s, r)

/-- Blanks on a line. -/
def isLineBlank (c : Char) : Bool := Text.isBlank c && c != '\n' && c != '\r'

/-- A value behind its mark. -/
def value (cs : List Char) : Option (String × List Char) :=
  parts true (cs.length + 1) (cs.dropWhile isLineBlank)

/-! ## Files -/

/-- Entries in the order in which they stand. -/
abbrev Entries : Type := List (String × Value)

/-- What is read so far: the keys without a heading, and the headings with their keys, the last one
first. -/
structure Draft where
  general : Entries
  sections : List (String × Entries)

/-- One more key below the last heading. -/
def Draft.add (d : Draft) (key text : String) : Draft :=
  match d.sections with
  | [] => { d with general := d.general ++ [(key, .text text)] }
  | (name, es) :: ss => { d with sections := (name, es ++ [(key, .text text)]) :: ss }

/-- All entries; of those with one name the last counts. -/
def Draft.entries (d : Draft) : Entries :=
  Json.lastOf (d.general ++
    d.sections.reverse.map fun s => (s.1, Value.table (Json.lastOf s.2)))

/-- The text from its first other character on, and whether that one is the first of its line. -/
def skipBlanks (lineStart : Bool) : List Char → Bool × List Char
  | [] => (lineStart, [])
  | c :: r => if Text.isBlank c then skipBlanks (c == '\n') r else (lineStart, c :: r)

/-- The text from the next line on. -/
def nextLine (cs : List Char) : List Char := (cs.dropWhile (· != '\n')).drop 1

/-- A heading, a key with its value, or a comment, which must be the first on its line. Returns what
is read then, whether a line has just ended, and the rest. -/
def statement (d : Draft) (lineStart : Bool) : List Char → Option (Draft × Bool × List Char)
  | [] => none
  | '[' :: r => do
    let (name, r) ← textBefore [']'] r
    return ({ d with sections := (name, []) :: d.sections }, false, r.drop 1)
  | c :: r =>
    if c = ';' ∨ c = '#' then
      if lineStart then some (d, true, nextLine r) else none
    else do
      let (key, r) ← textBefore ['=', ':'] (c :: r)
      let (text, r) ← value (r.drop 1)
      if key.isEmpty then none else return (d.add key text, false, r)

/-- All statements; the fuel bounds their number. -/
def statements : (fuel : Nat) → Draft → Bool → List Char → Option Draft
  | 0, _, _, _ => none
  | fuel + 1, d, lineStart, cs =>
    match skipBlanks lineStart cs with
    | (_, []) => some d
    | (lineStart, cs) => do
      let (d, lineStart, r) ← statement d lineStart cs
      statements fuel d lineStart r

/-- The entries of a file. -/
def read? (text : String) : Option Entries :=
  (statements (text.length + 1) ⟨[], []⟩ true text.toList).map Draft.entries

end ApiSurface.Ini
