import ApiSurface.Yaml.Cursor

/-!
# Scalars in YAML

* `Tag`, `Node.ofPlain`, `Node.ofTagged`: what a text without quotes stands for;
* `plain`: a text without quotes, on one line or several;
* `quoted`: a text in quotes.

Lines of a text are joined by a blank; an empty line between them is a line break.
-/

namespace ApiSurface.Yaml

/-! ## Meaning -/

/-- What a tag says about a text without quotes: nothing, the name of a type, or something else. -/
inductive Tag
  | none
  | type (name : String)
  | other
deriving DecidableEq, Repr

/-- A double, by its text; those that are not finite have spellings that no value has. -/
def Node.ofReal (s : String) : Node := ⟨some (.real s), (Numeral.real? s.toList).map .real⟩

/-- An integer. -/
def Node.ofInteger (n : Int) : Node := ⟨some (.integer n), some (.integer n)⟩

/-- A truth value. -/
def Node.ofBool (b : Bool) : Node := ⟨some (.bool b), some (.bool b)⟩

/-- Spellings of doubles that are not finite. -/
def specialReals : List String :=
  [".inf", ".Inf", ".INF", "+.inf", "+.Inf", "+.INF", "-.inf", "-.Inf", "-.INF", ".nan", "NaN",
    ".NAN"]

/-- Whether a text reads as a double. -/
def isReal (s : String) : Bool := specialReals.contains s || (Numeral.real? s.toList).isSome

/-- An integer with the mark of its base in front, or with a sign more than it needs. -/
def markedInteger? : List Char → Option Int
  | '0' :: 'x' :: r => Numeral.integerIn? 16 r
  | '0' :: 'o' :: r => Numeral.integerIn? 8 r
  | '+' :: r => Numeral.integer? r
  | _ => none

/-- What a text without quotes stands for. -/
def Node.ofPlain (s : String) : Node :=
  match (markedInteger? s.toList).or (Numeral.integer? s.toList) with
  | some n => .ofInteger n
  | none =>
    if s = "~" ∨ s = "null" then .null
    else if s = "true" then .ofBool true
    else if s = "false" then .ofBool false
    else if isReal s then .ofReal s
    else .text s

/-- What a text without quotes stands for as a value of a type. -/
def Node.ofTyped (type s : String) : Node :=
  if type = "bool" then
    if s = "true" then .ofBool true else if s = "false" then .ofBool false else .null
  else if type = "int" then ((Numeral.integer? s.toList).map Node.ofInteger).getD .null
  else if type = "float" then if isReal s then .ofReal s else .null
  else if type = "null" then .null
  else .text s

/-- What a text without quotes stands for under a tag. -/
def Node.ofTagged : Tag → String → Node
  | .none, s => .ofPlain s
  | .type name, s => .ofTyped name s
  | .other, s => .text s

/-! ## Joining lines -/

/-- What stands between two lines of a text, by the number of line breaks. -/
def joint (breaks : Nat) : List Char :=
  if breaks = 1 then [' '] else List.replicate (breaks - 1) '\n'

/-- The place of the next text behind line breaks, and their number. The fuel bounds it. -/
def nextText (floor : Nat) : (fuel breaks : Nat) → Cursor → Option (Nat × Cursor)
  | 0, _, _ => none
  | fuel + 1, breaks, c =>
    let d := c.blanks
    match d.rest with
    | [] => some (breaks, d)
    | x :: _ =>
      if isBreak x then nextText floor fuel (breaks + 1) d.newLine
      else if (c.rest.takeWhile fun y => y == ' ').length + c.col < floor ∧
          (c.rest.takeWhile isBlank).contains '\t' then none
      else some (breaks, d)

/-! ## Texts without quotes -/

/-- Whether a character, with what follows it, ends a text without quotes. -/
def endsPlain (flow : Bool) (c : Char) (r : List Char) : Bool :=
  isBlank c || isBreak c || (flow && isFlowMark c) ||
    (c == ':' && (isGap r || (flow && r.head?.any isFlowMark)))

/-- A word at the front of a text. -/
def word (flow : Bool) : List Char → List Char × List Char
  | [] => ([], [])
  | c :: r =>
    if endsPlain flow c r then ([], c :: r)
    else
      let (w, r) := word flow r
      (c :: w, r)

/-- Words on one line with the blanks between them; the fuel bounds their number. -/
def words (flow : Bool) : (fuel : Nat) → List Char → List Char × List Char
  | 0, cs => ([], cs)
  | fuel + 1, cs =>
    let (w, r) := word flow cs
    let gap := r.takeWhile isBlank
    match r.drop gap.length with
    | '#' :: _ => (w, r)
    | next =>
      match words flow fuel next with
      | ([], _) => (w, r)
      | (more, s) => if w.isEmpty then ([], r) else (w ++ gap ++ more, s)

/-- Whether a text without quotes may start here. -/
def startsPlain (flow : Bool) (cs : List Char) : Bool :=
  match cs with
  | [] => false
  | c :: r =>
    if c == '-' then !isGap r && !(flow && r.head?.any isFlowMark)
    else if c == '?' then !isGap r
    else if c == ':' then !isGap r && !(flow && r.head?.any isFlowMark)
    else if c == '|' || c == '>' then flow
    else !isFlowMark c && !(['#', '&', '*', '!', '\'', '"', '%', '@', '\x60'].contains c)

/-- More lines of a text without quotes, each from column `floor` on. The fuel bounds their
number. -/
def plainLines (flow : Bool) (floor : Nat) : (fuel : Nat) → Cursor → Option (List Char × Cursor)
  | 0, c => some ([], c)
  | fuel + 1, c =>
    if !isLineEnd c.blanks.rest || c.blanks.rest.isEmpty then some ([], c)
    else do
      let (breaks, d) ← nextText (if flow then 0 else floor) (c.rest.length + 1) 0 c
      let (ws, r) := words flow (d.rest.length + 1) d.rest
      if d.atEnd || (!flow && d.col < floor) || d.rest.head? == some '#' || ws.isEmpty then
        return ([], c)
      else
        let (more, e) ← plainLines flow floor fuel (d.jump r)
        return (joint breaks ++ ws ++ more, e)

/-- A text without quotes. -/
def plain (flow : Bool) (floor : Nat) (c : Cursor) : Option (String × Cursor) := do
  if !startsPlain flow c.rest || (flow && c.col < floor) then none
  else
    let (ws, r) := words flow (c.rest.length + 1) c.rest
    let (more, e) ← plainLines flow floor (c.rest.length + 1) (c.jump r)
    return (String.ofList (ws ++ more), e)

/-! ## Texts in quotes -/

/-- The character behind a backslash, and how many characters it takes. -/
def escaped : List Char → Option (Char × List Char)
  | '0' :: r => some ('\x00', r)
  | 'a' :: r => some ('\x07', r)
  | 'b' :: r => some ('\x08', r)
  | 't' :: r => some ('\t', r)
  | '\t' :: r => some ('\t', r)
  | 'n' :: r => some ('\n', r)
  | 'v' :: r => some ('\x0b', r)
  | 'f' :: r => some ('\x0c', r)
  | 'r' :: r => some ('\r', r)
  | 'e' :: r => some ('\x1b', r)
  | ' ' :: r => some (' ', r)
  | '"' :: r => some ('"', r)
  | '/' :: r => some ('/', r)
  | '\\' :: r => some ('\\', r)
  | 'N' :: r => some ('\u0085', r)
  | '_' :: r => some ('\u00a0', r)
  | 'L' :: r => some ('\u2028', r)
  | 'P' :: r => some ('\u2029', r)
  | 'x' :: r => Text.codedChar 2 r
  | 'u' :: r => Text.codedChar 4 r
  | 'U' :: r => Text.codedChar 8 r
  | _ => none

/-- The place where a text in quotes goes on behind line breaks. -/
def continued (floor : Nat) (c : Cursor) : Option (Nat × Cursor) :=
  (nextText floor (c.rest.length + 1) 0 c).filter fun p =>
    !p.2.atEnd && floor ≤ p.2.col

/-- A text up to its closing quote; the fuel bounds its length. -/
def quotedChars (quote : Char) (floor : Nat) : (fuel : Nat) → Cursor → Option (List Char × Cursor)
  | 0, _ => none
  | fuel + 1, c =>
    match c.rest with
    | [] => none
    | x :: r =>
      if isBreak x ∨ (isBlank x ∧ isLineEnd c.blanks.rest) then do
        let (breaks, d) ← continued floor c
        let (cs, e) ← quotedChars quote floor fuel d
        return (joint breaks ++ cs, e)
      else if x = quote then
        if quote = '\'' ∧ r.head? = some '\'' then
          (quotedChars quote floor fuel (c.step 2)).map fun p => ('\'' :: p.1, p.2)
        else some ([], c.step 1)
      else if x = '\\' ∧ quote = '"' then
        if r.head?.any isBreak then do
          let (breaks, d) ← continued floor (c.step 1)
          let (cs, e) ← quotedChars quote floor fuel d
          return (List.replicate (breaks - 1) '\n' ++ cs, e)
        else do
          let (y, r) ← escaped r
          let (cs, e) ← quotedChars quote floor fuel (c.jump r)
          return (y :: cs, e)
      else (quotedChars quote floor fuel (c.step 1)).map fun p => (x :: p.1, p.2)

/-- A text in quotes. -/
def quoted (floor : Nat) (c : Cursor) : Option (String × Cursor) :=
  match c.rest with
  | [] => none
  | q :: r =>
    if q = '"' ∨ q = '\'' then
      (quotedChars q floor (r.length + 1) (c.step 1)).map fun p => (String.ofList p.1, p.2)
    else none

end ApiSurface.Yaml
