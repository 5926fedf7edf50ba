/-!
# Text in bytes that may be damaged

* `lossy`: the text in bytes, with a replacement character for each damaged sequence.
-/

namespace ApiSurface.Text

/-- Stands for a damaged sequence. -/
def replacement : Char := '\ufffd'

/-- A byte in a range. -/
def inRange (low high : UInt8) (b : UInt8) : Bool := decide (low ≤ b) && decide (b ≤ high)

/-- The bytes that may follow a first byte, one range for each; none for a byte that starts no
character. -/
def followers? (b : UInt8) : Option (List (UInt8 × UInt8)) :=
  if b ≤ 0x7F then some []
  else if inRange 0xC2 0xDF b then some [(0x80, 0xBF)]
  else if b = 0xE0 then some [(0xA0, 0xBF), (0x80, 0xBF)]
  else if b = 0xED then some [(0x80, 0x9F), (0x80, 0xBF)]
  else if inRange 0xE1 0xEF b then some [(0x80, 0xBF), (0x80, 0xBF)]
  else if b = 0xF0 then some [(0x90, 0xBF), (0x80, 0xBF), (0x80, 0xBF)]
  else if inRange 0xF1 0xF3 b then some [(0x80, 0xBF), (0x80, 0xBF), (0x80, 0xBF)]
  else if b = 0xF4 then some [(0x80, 0x8F), (0x80, 0xBF), (0x80, 0xBF)]
  else none

/-- The length of the longest beginning of a text that follows ranges. -/
def followed : List (UInt8 × UInt8) → List UInt8 → Nat
  | (low, high) :: rs, b :: bs => if inRange low high b then followed rs bs + 1 else 0
  | _, _ => 0

/-- The value of the bytes of a character. -/
def codePoint (first : UInt8) (rest : List UInt8) : Nat :=
  let lead := match rest.length with
    | 0 => first.toNat
    | 1 => first.toNat % 32
    | 2 => first.toNat % 16
    | _ => first.toNat % 8
  rest.foldl (fun n b => n * 64 + b.toNat % 64) lead

/-- The characters of bytes; the fuel bounds their number. -/
def lossyChars : (fuel : Nat) → List UInt8 → List Char
  | 0, _ => []
  | _ + 1, [] => []
  | fuel + 1, b :: bs =>
    match followers? b with
    | none => replacement :: lossyChars fuel bs
    | some ranges =>
      let n := followed ranges bs
      let c := if n = ranges.length then Char.ofNat (codePoint b (bs.take n)) else replacement
      c :: lossyChars fuel (bs.drop n)

/-- The text in bytes. -/
def lossy (bytes : ByteArray) : String :=
  match String.fromUTF8? bytes with
  | some s => s
  | none => String.ofList (lossyChars (bytes.size + 1) bytes.data.toList)

end ApiSurface.Text
