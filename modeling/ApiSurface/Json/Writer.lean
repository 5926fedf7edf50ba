import ApiSurface.Json.Basic

/-!
# Writing JSON

* `quote`: a text between quotes, its controls escaped;
* `Json.compact`: a value without blanks;
* `Json.pretty`: one member or item a line, two blanks a level.
-/

namespace ApiSurface.Json

/-- A hexadecimal digit in lower case. -/
def hexDigit (n : Nat) : Char := if n < 10 then Char.ofNat (48 + n) else Char.ofNat (87 + n)

/-- A character inside quotes. -/
def escapeChar (c : Char) : List Char :=
  if c = '"' then ['\\', '"']
  else if c = '\\' then ['\\', '\\']
  else if c = '\n' then ['\\', 'n']
  else if c = '\r' then ['\\', 'r']
  else if c = '\t' then ['\\', 't']
  else if c = '\x08' then ['\\', 'b']
  else if c = '\x0c' then ['\\', 'f']
  else if c.val.toNat < 0x20 then
    ['\\', 'u', '0', '0', hexDigit (c.val.toNat / 16), hexDigit (c.val.toNat % 16)]
  else [c]

/-- A text between quotes. -/
def quote (s : String) : String := String.ofList ('"' :: (s.toList.flatMap escapeChar ++ ['"']))

mutual

/-- A value without blanks. -/
def compact : Json → String
  | null => "null"
  | bool b => if b then "true" else "false"
  | number n => n.text
  | text s => quote s
  | list items => "[" ++ ",".intercalate (compactItems items) ++ "]"
  | object members => "\x7b" ++ ",".intercalate (compactMembers members) ++ "\x7d"
  | unfit => "null"

/-- Each item without blanks. -/
def compactItems : List Json → List String
  | [] => []
  | v :: vs => v.compact :: compactItems vs

/-- Each member without blanks. -/
def compactMembers : List (String × Json) → List String
  | [] => []
  | (k, v) :: ms => (quote k ++ ":" ++ v.compact) :: compactMembers ms

end

/-- A line break and two blanks a level. -/
def newLine (depth : Nat) : String := "\n" ++ String.ofList (List.replicate (2 * depth) ' ')

/-- Lines between brackets, one level deeper; nothing stands between the brackets of no lines. -/
def block (opening closing : String) (depth : Nat) (parts : List String) : String :=
  if parts.isEmpty then opening ++ closing
  else opening ++ newLine (depth + 1) ++ ("," ++ newLine (depth + 1)).intercalate parts ++
    newLine depth ++ closing

mutual

/-- A value over several lines, its first line at the given level. -/
def prettyAt : Nat → Json → String
  | _, null => "null"
  | _, bool b => if b then "true" else "false"
  | _, number n => n.text
  | _, text s => quote s
  | depth, list items => block "[" "]" depth (prettyItems (depth + 1) items)
  | depth, object members => block "\x7b" "\x7d" depth (prettyMembers (depth + 1) members)
  | _, unfit => "null"

/-- Each item over several lines. -/
def prettyItems : Nat → List Json → List String
  | _, [] => []
  | depth, v :: vs => v.prettyAt depth :: prettyItems depth vs

/-- Each member over several lines. -/
def prettyMembers : Nat → List (String × Json) → List String
  | _, [] => []
  | depth, (k, v) :: ms => (quote k ++ ": " ++ v.prettyAt depth) :: prettyMembers depth ms

end

/-- A value over several lines. -/
def pretty (v : Json) : String := v.prettyAt 0

end ApiSurface.Json
