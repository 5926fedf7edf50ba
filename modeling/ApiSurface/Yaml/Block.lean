import ApiSurface.Yaml.Cursor

/-!
# Texts by indentation

A text under a header of one character: its lines stand one below the other in some column.

* `Header.read?`: whether lines are kept or joined, what becomes of the line breaks at the end, and
  the column, if it is given;
* `blockText`: the text under a header.
-/

namespace ApiSurface.Yaml

/-- What becomes of the line breaks at the end of a text. -/
inductive Chomp
  | clip
  | strip
  | keep
deriving DecidableEq, Repr

/-- How a text by indentation is read. -/
structure Header where
  joined : Bool
  chomp : Chomp
  indent : Option Nat

/-! ## Headers -/

/-- The character that says what becomes of the line breaks at the end. -/
def Chomp.of? (c : Char) : Option Chomp :=
  if c = '+' then some .keep else if c = '-' then some .strip else none

/-- The column that a digit gives. -/
def indentOf? (c : Char) : Option Nat :=
  if c.isDigit ∧ c ≠ '0' then some (c.val.toNat - '0'.val.toNat) else none

/-- The marks of a header in either order, and what follows them. -/
def Header.marks (joined : Bool) : List Char → Header × List Char
  | a :: b :: r =>
    match Chomp.of? a, indentOf? b, indentOf? a, Chomp.of? b with
    | some k, some n, _, _ => (⟨joined, k, some n⟩, r)
    | _, _, some n, some k => (⟨joined, k, some n⟩, r)
    | some k, none, _, _ => (⟨joined, k, none⟩, b :: r)
    | _, _, some n, none => (⟨joined, .clip, some n⟩, b :: r)
    | none, _, none, _ => (⟨joined, .clip, none⟩, a :: b :: r)
  | [a] =>
    match Chomp.of? a, indentOf? a with
    | some k, _ => (⟨joined, k, none⟩, [])
    | _, some n => (⟨joined, .clip, some n⟩, [])
    | _, _ => (⟨joined, .clip, none⟩, [a])
  | [] => (⟨joined, .clip, none⟩, [])

/-- A header, which takes the rest of its line. -/
def Header.read? (c : Cursor) : Option (Header × Cursor) :=
  match c.rest with
  | [] => none
  | x :: r =>
    if x = '|' ∨ x = '>' then
      let (h, r) := Header.marks (x = '>') r
      if (c.jump r).endsLine then some (h, (c.jump r).lineEnd) else none
    else none

/-! ## Lines -/

/-- The first line of a text, and what follows it, if it ends. -/
def firstLine (cs : List Char) : List Char × Option (List Char) :=
  let l := cs.takeWhile fun c => !isBreak c
  match cs.drop l.length with
  | [] => (l, none)
  | r => (l, some (afterBreak r))

/-- The number of blanks in front of a line. -/
def spaces (l : List Char) : Nat := (l.takeWhile (· == ' ')).length

/-- The greatest indentation of the lines in front of the first one that holds something, and of
that line. The fuel bounds their number. -/
def widest : (fuel : Nat) → List Char → Nat
  | 0, _ => 0
  | fuel + 1, cs =>
    match firstLine cs with
    | (l, none) => spaces l
    | (l, some r) => if spaces l = l.length then max (spaces l) (widest fuel r) else spaces l

/-- A text as far as it is read: its characters, whether a line break waits behind them, how many
empty lines do, whether the last line started with a blank, how many lines there were, and what is
left, if the end is not reached. -/
structure Lines where
  text : List Char
  waiting : Bool
  empty : Nat
  blank : Bool
  count : Nat
  rest : List Char
  closed : Bool

/-- What goes in front of the next line. -/
def Lines.front (s : Lines) (joined blank : Bool) : List Char :=
  if joined && s.waiting && !s.blank && !blank then
    if s.empty = 0 then [' '] else List.replicate s.empty '\n'
  else (if s.waiting then ['\n'] else []) ++ List.replicate s.empty '\n'

/-- Lines that are indented enough, and empty ones; the fuel bounds their number. -/
def lines (joined : Bool) (indent : Nat) : (fuel : Nat) → Lines → Lines
  | 0, s => s
  | fuel + 1, s =>
    let (l, more) := firstLine s.rest
    let next := { s with count := s.count + 1, rest := more.getD [] }
    if spaces l = l.length ∧ l.length ≤ indent then
      match more with
      | none => { s with rest := [], closed := l.length < max indent 1 }
      | some _ => lines joined indent fuel { next with empty := s.empty + 1 }
    else if spaces l < indent then s
    else
      let content := l.drop indent
      let blank := content.head?.any isBlank
      let read : Lines :=
        { next with text := s.text ++ s.front joined blank ++ content, waiting := more.isSome,
                    empty := 0, blank := blank, closed := false }
      match more with
      | none => { read with rest := [] }
      | some _ => lines joined indent fuel { read with closed := true }

/-- The text of lines, with what is left of the line breaks at its end. -/
def Lines.chomped (s : Lines) (k : Chomp) : List Char :=
  if k = .strip then s.text
  else s.text ++ (if s.waiting then ['\n'] else []) ++
    (if s.rest.isEmpty && !s.closed then ['\n'] else []) ++
    (if k = .keep then List.replicate s.empty '\n' else [])

/-- The text of lines of which none holds anything. -/
def Lines.hollow (s : Lines) : Chomp → List Char
  | .strip => []
  | .clip => ['\n']
  | .keep => List.replicate (max s.empty 1) '\n'

/-- The column of the lines under a header. -/
def Header.column (h : Header) (floor : Nat) (cs : List Char) : Nat :=
  match h.indent with
  | some n => floor - 1 + n
  | none => max (widest (cs.length + 1) cs) floor

/-- Whether the first line that holds something is indented, but not enough. -/
def isLoose (floor indent : Nat) (cs : List Char) : Bool :=
  let l := (firstLine cs).1
  floor ≤ spaces l && spaces l < indent && spaces l != l.length

/-- A text under its header, whose lines stand in a column from `floor` on. -/
def blockText (floor : Nat) (c : Cursor) : Option (String × Cursor) := do
  let (h, c) ← Header.read? c
  if c.rest.isEmpty then return ("", c)
  else
    let d := c.newLine
    let indent := h.column floor d.rest
    let s := lines h.joined indent (d.rest.length + 1) ⟨[], false, 0, false, 0, d.rest, true⟩
    let text := if s.text.isEmpty && s.rest.isEmpty then s.hollow h.chomp else s.chomped h.chomp
    if d.rest.head? = some '\t' ∨ (s.text.isEmpty ∧ isLoose floor indent s.rest) then none
    else return (String.ofList text, { d with rest := s.rest, line := d.line + s.count })

end ApiSurface.Yaml
