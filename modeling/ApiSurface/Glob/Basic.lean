import ApiSurface.Text.Blank

/-!
# Globs

Patterns for paths. They are matched byte by byte; `?` and `*` stop at a `/`, a class may hold it.

* `Token`: what a pattern is made of;
* `Glob.parse?`: a pattern's tokens, unless it is malformed;
* `Glob.accepts`: whether a whole path matches.
-/

namespace ApiSurface.Glob

/-- A part of a pattern. -/
inductive Token
  | literal (c : Char)
  | any
  | star
  | deepStart
  | deepEnd
  | deepMiddle
  | oneOf (negated : Bool) (ranges : List (Char × Char))
  | choice (branches : List (List Token))
deriving Inhabited

/-! ## Reading patterns -/

/-- The state of a reader: the branches of the choices that are open, the innermost last one first,
each with its tokens in reverse; where each open choice starts among the branches; the character in
front of the rest; and whether a bracket that nothing closes was met. -/
structure Reader where
  branches : List (List Token)
  starts : List Nat
  before : Option Char
  loose : Bool

namespace Reader

/-- A token behind those of the innermost branch. -/
def push (t : Token) (s : Reader) : Reader :=
  match s.branches with
  | b :: bs => { s with branches := (t :: b) :: bs }
  | [] => { s with branches := [[t]] }

/-- The innermost branch. -/
def branch (s : Reader) : List Token := s.branches.head?.getD []

/-- The token in the place of the last one of the innermost branch. -/
def swap (f : Token → Token) (s : Reader) : Reader :=
  match s.branches with
  | (t :: b) :: bs => { s with branches := (f t :: b) :: bs }
  | _ => s

/-- Begin a choice. -/
def openChoice (s : Reader) : Reader :=
  { s with branches := [] :: s.branches, starts := s.branches.length :: s.starts }

/-- Begin the next branch of a choice; outside of choices a comma is itself. -/
def comma (s : Reader) : Reader :=
  if s.starts.isEmpty then s.push (.literal ',') else { s with branches := [] :: s.branches }

/-- End a choice, if one is open. -/
def closeChoice? (s : Reader) : Option Reader :=
  match s.starts with
  | [] => none
  | n :: ns =>
    let count := s.branches.length - n
    let inner := (s.branches.take count).reverse.map List.reverse
    some (push (.choice inner) { s with branches := s.branches.drop count, starts := ns })

/-- The token that two stars between separators make of the one before them. -/
def deepen (atEnd : Bool) : Token → Token
  | .deepStart => .deepStart
  | .deepEnd => .deepEnd
  | _ => if atEnd then .deepEnd else .deepMiddle

/-- Two stars without a meaning of their own. -/
def twoStars (s : Reader) : Reader := (s.push .star).push .star

/-- Two stars: they cross separators when they stand alone between them. Returns what is left of
the rest. -/
def stars (s : Reader) (rest : List Char) : Reader × List Char :=
  let before := s.before
  let s := { s with before := some '*' }
  if s.branch.isEmpty then
    match rest with
    | [] => (s.push .deepStart, [])
    | '/' :: r => (({ s with before := some '/' } : Reader).push .deepStart, r)
    | _ => (s.twoStars, rest)
  else if before != some '/' &&
      (s.branches.length ≤ 1 || (before != some ',' && before != some '\x7b')) then
    (s.twoStars, rest)
  else
    match rest with
    | [] => (s.swap (deepen true), [])
    | '/' :: r => (({ s with before := some '/' } : Reader).swap (deepen false), r)
    | c :: _ =>
      if (c == ',' || c == '\x7d') && 2 ≤ s.branches.length then (s.swap (deepen true), rest)
      else (s.twoStars, rest)

end Reader

/-! ### Classes -/

/-- A class as far as it is read: its ranges in reverse, and whether the last one is open. -/
structure Class where
  ranges : List (Char × Char)
  inRange : Bool

/-- The end of the open range, unless it would run backwards. -/
def Class.extend? (k : Class) (c : Char) : Option Class :=
  match k.ranges with
  | (low, _) :: rs => if c < low then none else some ⟨(low, c) :: rs, false⟩
  | [] => none

/-- How the text behind a bracket reads as a class. -/
inductive ClassResult
  | closed (ranges : List (Char × Char)) (rest : List Char)
  | unclosed
  | reversed

/-- The ranges of a class up to its end. Right behind the opening a bracket or a minus is itself,
and so is a minus in front of the end. -/
def classBody (first : Bool) (k : Class) : List Char → ClassResult
  | [] => .unclosed
  | c :: r =>
    if c = ']' ∧ !first then
      .closed (if k.inRange then ('-', '-') :: k.ranges else k.ranges).reverse r
    else if c = '-' ∧ !first ∧ !k.inRange then classBody false ⟨k.ranges, true⟩ r
    else if k.inRange ∧ c ≠ ']' then
      match k.extend? c with
      | some k => classBody false k r
      | none => .reversed
    else classBody false ⟨(c, c) :: k.ranges, false⟩ r

/-- A class behind its bracket, and whether it is negated. -/
def readClass : List Char → Bool × ClassResult
  | '!' :: r => (true, classBody true ⟨[], false⟩ r)
  | '^' :: r => (true, classBody true ⟨[], false⟩ r)
  | r => (false, classBody true ⟨[], false⟩ r)

/-! ### Patterns -/

/-- Read a pattern from a state on. The fuel bounds its length. A bracket that nothing closes is
itself if that is allowed. -/
def readTokens (looseAllowed : Bool) : (fuel : Nat) → Reader → List Char → Option Reader
  | 0, _, _ => none
  | _ + 1, s, [] => some s
  | fuel + 1, s, '?' :: r => readTokens looseAllowed fuel { s.push .any with before := some '?' } r
  | fuel + 1, s, '*' :: '*' :: r =>
    let (s, r) := s.stars r
    readTokens looseAllowed fuel s r
  | fuel + 1, s, '*' :: r => readTokens looseAllowed fuel { s.push .star with before := some '*' } r
  | fuel + 1, s, '[' :: r =>
    let literal : Reader := { s.push (.literal '[') with before := some '[' }
    if s.loose then readTokens looseAllowed fuel literal r
    else match readClass r with
      | (negated, .closed ranges r) =>
        readTokens looseAllowed fuel { s.push (.oneOf negated ranges) with before := some ']' } r
      | (_, .unclosed) =>
        if looseAllowed then readTokens looseAllowed fuel { literal with loose := true } r else none
      | (_, .reversed) => none
  | fuel + 1, s, '\x7b' :: r =>
    readTokens looseAllowed fuel { s.openChoice with before := some '\x7b' } r
  | fuel + 1, s, '\x7d' :: r =>
    match s.closeChoice? with
    | some s => readTokens looseAllowed fuel { s with before := some '\x7d' } r
    | none => none
  | fuel + 1, s, ',' :: r => readTokens looseAllowed fuel { s.comma with before := some ',' } r
  | _ + 1, _, ['\\'] => none
  | fuel + 1, s, '\\' :: c :: r =>
    readTokens looseAllowed fuel { s.push (.literal c) with before := some c } r
  | fuel + 1, s, c :: r =>
    readTokens looseAllowed fuel { s.push (.literal c) with before := some c } r

/-- The tokens of a pattern: its choices must be closed. -/
def parse? (looseAllowed : Bool) (pattern : List Char) : Option (List Token) :=
  match readTokens looseAllowed (pattern.length + 1) ⟨[[]], [], none, false⟩ pattern with
  | some s => if s.branches.length ≤ 1 then some s.branch.reverse else none
  | none => none

/-! ## Matching -/

/-- The bytes of a character. -/
def bytesOf (c : Char) : List UInt8 := (String.singleton c).toUTF8.data.toList

/-- The separator of paths. -/
def slash : UInt8 := 47

/-- The bytes of a range of characters: those between the last byte of its start and the first one
of its end, and the bytes around them. -/
def rangeHolds (range : Char × Char) (b : UInt8) : Bool :=
  let low := bytesOf range.1
  let high := bytesOf range.2
  if range.1 = range.2 then low.contains b
  else (low.dropLast.contains b || (high.drop 1).contains b) ||
    (decide (low.getLast?.getD 0 ≤ b) && decide (b ≤ high.head?.getD 0))

/-- Whether a class holds a byte; separators are bytes like any other here. -/
def classHolds (negated : Bool) (ranges : List (Char × Char)) (b : UInt8) : Bool :=
  (ranges.any fun r => rangeHolds r b) != negated

/-- What may be left of a text behind bytes of a kind. -/
def starRests (p : UInt8 → Bool) : List UInt8 → List (List UInt8)
  | [] => [[]]
  | b :: bs => if p b then (b :: bs) :: starRests p bs else [b :: bs]

/-- What may be left of a text behind one of its separators. -/
def slashRests : List UInt8 → List (List UInt8)
  | [] => []
  | b :: bs => if b = slash then bs :: slashRests bs else slashRests bs

/-- What is left of a text behind a separator in front. -/
def afterSlash : List UInt8 → Option (List UInt8)
  | b :: bs => if b = slash then some bs else none
  | [] => none

mutual

/-- Nothing is demanded by a token: a choice between nothings. -/
def isVoid : Token → Bool
  | .choice bs => areVoid bs
  | _ => false

/-- Nothing is demanded by tokens. -/
def allVoid : List Token → Bool
  | [] => true
  | t :: ts => isVoid t && allVoid ts

/-- Nothing is demanded by any branch. -/
def areVoid : List (List Token) → Bool
  | [] => true
  | b :: bs => allVoid b && areVoid bs

end

mutual

/-- What may be left of a text behind a token. -/
def rests (s : List UInt8) : Token → List (List UInt8)
  | .literal c => if (bytesOf c).isPrefixOf s then [s.drop (bytesOf c).length] else []
  | .any =>
    match s with
    | b :: bs => if b = slash then [] else [bs]
    | [] => []
  | .star => starRests (· != slash) s
  | .deepStart => (s :: slashRests s).eraseDups
  | .deepEnd => (afterSlash s).toList.flatMap (starRests fun _ => true)
  | .deepMiddle => (afterSlash s).toList.flatMap fun r => r :: slashRests r
  | .oneOf negated ranges =>
    match s with
    | b :: bs => if classHolds negated ranges b then [bs] else []
    | [] => []
  | .choice bs => if areVoid bs then [s] else (branchRests s bs).eraseDups

/-- What may be left of texts behind tokens. -/
def restsAll (ss : List (List UInt8)) : List Token → List (List UInt8)
  | [] => ss
  | t :: ts => restsAll (ss.flatMap fun s => rests s t).eraseDups ts

/-- What may be left of a text behind one of the branches that demand something. -/
def branchRests (s : List UInt8) : List (List Token) → List (List UInt8)
  | [] => []
  | b :: bs => (if allVoid b then [] else restsAll [s] b) ++ branchRests s bs

end

/-- Two stars alone match everything. -/
def isEverything : List Token → Bool
  | [.deepStart] => true
  | _ => false

/-- Whether tokens match a whole path. -/
def accepts (ts : List Token) (path : String) : Bool :=
  isEverything ts || (restsAll [path.toUTF8.data.toList] ts).any List.isEmpty

end ApiSurface.Glob
