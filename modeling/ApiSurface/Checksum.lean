/-!
# Checksums

SHA-256 of bytes, as 64 hexadecimal digits.

* `padded`: bytes with the padding that makes them whole blocks;
* `schedule`, `compress`: one block;
* `Checksum.ofBytes`, `ofText`: the checksum of bytes and of a text;
* `Checksum.short`, `verifies`: its first digits, and whether a text has it.
-/

namespace ApiSurface

namespace Sha256

/-- The round constants. -/
def roundConstants : List UInt32 :=
  [0x428a2f98, 0x71374491, 0xb5c0fbcf, 0xe9b5dba5, 0x3956c25b, 0x59f111f1, 0x923f82a4, 0xab1c5ed5,
   0xd807aa98, 0x12835b01, 0x243185be, 0x550c7dc3, 0x72be5d74, 0x80deb1fe, 0x9bdc06a7, 0xc19bf174,
   0xe49b69c1, 0xefbe4786, 0x0fc19dc6, 0x240ca1cc, 0x2de92c6f, 0x4a7484aa, 0x5cb0a9dc, 0x76f988da,
   0x983e5152, 0xa831c66d, 0xb00327c8, 0xbf597fc7, 0xc6e00bf3, 0xd5a79147, 0x06ca6351, 0x14292967,
   0x27b70a85, 0x2e1b2138, 0x4d2c6dfc, 0x53380d13, 0x650a7354, 0x766a0abb, 0x81c2c92e, 0x92722c85,
   0xa2bfe8a1, 0xa81a664b, 0xc24b8b70, 0xc76c51a3, 0xd192e819, 0xd6990624, 0xf40e3585, 0x106aa070,
   0x19a4c116, 0x1e376c08, 0x2748774c, 0x34b0bcb5, 0x391c0cb3, 0x4ed8aa4a, 0x5b9cca4f, 0x682e6ff3,
   0x748f82ee, 0x78a5636f, 0x84c87814, 0x8cc70208, 0x90befffa, 0xa4506ceb, 0xbef9a3f7, 0xc67178f2]

/-- The eight words of a state. -/
structure State where
  a : UInt32
  b : UInt32
  c : UInt32
  d : UInt32
  e : UInt32
  f : UInt32
  g : UInt32
  h : UInt32

/-- The state before the first block. -/
def initial : State :=
  ⟨0x6a09e667, 0xbb67ae85, 0x3c6ef372, 0xa54ff53a, 0x510e527f, 0x9b05688c, 0x1f83d9ab, 0x5be0cd19⟩

/-- Rotate to the right. -/
def rotate (x : UInt32) (n : UInt32) : UInt32 := (x >>> n) ||| (x <<< (32 - n))

/-- The bytes of a natural number, the highest first. -/
def bigEndian (count n : Nat) : List UInt8 :=
  (List.range count).map fun i => UInt8.ofNat (n >>> (8 * (count - 1 - i)))

/-- Bytes with a one, zeros and their length in bits, so that they fill blocks of 64. -/
def padded (bytes : List UInt8) : List UInt8 :=
  let n := bytes.length
  bytes ++ 0x80 :: (List.replicate ((119 - n % 64) % 64) 0 ++ bigEndian 8 (8 * n))

/-- Bytes four by four as words. -/
def words : List UInt8 → List UInt32
  | a :: b :: c :: d :: r =>
    ((a.toUInt32 <<< 24) ||| (b.toUInt32 <<< 16) ||| (c.toUInt32 <<< 8) ||| d.toUInt32) :: words r
  | _ => []

/-- Extend the words of a schedule by one, computed from those 2, 7, 15 and 16 before it. -/
def extend (w : Array UInt32) : Array UInt32 :=
  let at_ (i : Nat) : UInt32 := w.getD (w.size - i) 0
  let s0 := rotate (at_ 15) 7 ^^^ rotate (at_ 15) 18 ^^^ (at_ 15 >>> 3)
  let s1 := rotate (at_ 2) 17 ^^^ rotate (at_ 2) 19 ^^^ (at_ 2 >>> 10)
  w.push (at_ 16 + s0 + at_ 7 + s1)

/-- The 64 words of a block. -/
def schedule (block : List UInt32) : List UInt32 :=
  ((List.range 48).foldl (fun w _ => extend w) block.toArray).toList

/-- One round, with a word of the schedule and a round constant. -/
def round (s : State) (p : UInt32 × UInt32) : State :=
  let s1 := rotate s.e 6 ^^^ rotate s.e 11 ^^^ rotate s.e 25
  let choice := (s.e &&& s.f) ^^^ ((~~~ s.e) &&& s.g)
  let t1 := s.h + s1 + choice + p.2 + p.1
  let s0 := rotate s.a 2 ^^^ rotate s.a 13 ^^^ rotate s.a 22
  let majority := (s.a &&& s.b) ^^^ (s.a &&& s.c) ^^^ (s.b &&& s.c)
  ⟨t1 + (s0 + majority), s.a, s.b, s.c, s.d + t1, s.e, s.f, s.g⟩

/-- The state after a block. -/
def compress (s : State) (block : List UInt32) : State :=
  let t := ((schedule block).zip roundConstants).foldl round s
  ⟨s.a + t.a, s.b + t.b, s.c + t.c, s.d + t.d, s.e + t.e, s.f + t.f, s.g + t.g, s.h + t.h⟩

/-- The state after all blocks; the fuel bounds their number. -/
def run : (fuel : Nat) → State → List UInt32 → State
  | 0, s, _ => s
  | _ + 1, s, [] => s
  | fuel + 1, s, ws => run fuel (compress s (ws.take 16)) (ws.drop 16)

/-- The words of a digest. -/
def digest (bytes : List UInt8) : List UInt32 :=
  let ws := words (padded bytes)
  let s := run ws.length initial ws
  [s.a, s.b, s.c, s.d, s.e, s.f, s.g, s.h]

/-- A word as eight hexadecimal digits. -/
def hexWord (w : UInt32) : List Char :=
  (List.range 8).map fun i => Nat.digitChar ((w.toNat >>> (4 * (7 - i))) % 16)

end Sha256

/-- A checksum in hexadecimal digits. -/
structure Checksum where
  hex : String
deriving DecidableEq, Repr

namespace Checksum

/-- The checksum of bytes. -/
def ofBytes (bytes : ByteArray) : Checksum :=
  ⟨String.ofList ((Sha256.digest bytes.data.toList).flatMap Sha256.hexWord)⟩

/-- The checksum of a text. -/
def ofText (s : String) : Checksum := ofBytes s.toUTF8

/-- The first twelve digits. -/
def short (c : Checksum) : String := String.ofList (c.hex.toList.take 12)

/-- Whether a text has the checksum. -/
def verifies (c : Checksum) (s : String) : Bool := c = ofText s

end Checksum

end ApiSurface
