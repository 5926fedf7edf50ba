import ApiSurface.Text.CodePoint
import ApiSurface.Text.Quote
import ApiSurface.Text.Word
import Mathlib.Data.List.Basic
import Mathlib.Tactic.SplitIfs

/-!
# What emitted literals mean

A reader of the string and template literals of the emitted language, in modules. The value of a
literal is a list of code units, of which a character beyond the first plane has two.

* `codeUnits`, `units`: the code units of a code point and of a text;
* `escape?`: what a backslash and the characters behind it stand for;
* `unit?`: what any place of a literal stands for; of expressions, only names are read;
* `literalFrom`, `evaluate`: the value of a literal, given the values of names;
* `literalFrom_escape`: a text with its delimiters and backslashes escaped;
* `weight_le_of_literalFrom`: a value takes room between backticks, and escapes take more than what
  they stand for, except at a backtick.
-/

namespace ApiSurface.Client

open ApiSurface.Text

/-! ## Code units -/

/-- The code units of a code point: one, or a pair beyond the first plane. -/
def codeUnits (n : Nat) : List Nat :=
  if n < 0x10000 then [n] else [0xD800 + (n - 0x10000) / 0x400, 0xDC00 + (n - 0x10000) % 0x400]

/-- The code units of a text. -/
def units (cs : List Char) : List Nat := cs.flatMap fun c => codeUnits c.toNat

/-! ## Escapes -/

/-- The code units of a code point that stands before a closing brace, and the number of its digits.
It has a digit, and it is no more than the last code point. -/
def bracedPoint? (cs : List Char) : Option (List Nat × Nat) :=
  let digits := cs.takeWhile fun c => (hexValue? c).isSome
  let n := digits.foldl (fun n c => n * 16 + (hexValue? c).getD 0) 0
  if digits.isEmpty || (cs.drop digits.length).head? != some '\x7d' || 0x110000 ≤ n then none
  else some (codeUnits n, digits.length)

/-- What a character behind a backslash stands for, some letters for control characters. -/
def escapedUnits : Char → List Nat
  | 'b' => [0x8]
  | 't' => [0x9]
  | 'n' => [0xA]
  | 'v' => [0xB]
  | 'f' => [0xC]
  | 'r' => [0xD]
  | c => codeUnits c.toNat

/-- What follows a backslash: the code units it stands for, and how many characters belong to it.
A line break goes away with the backslash; digits other than a single zero are refused. -/
def escape? : List Char → Option (List Nat × Nat)
  | [] => none
  | 'x' :: cs => (hexDigits 2 cs).map fun p => ([p.1], 3)
  | 'u' :: '\x7b' :: cs => (bracedPoint? cs).map fun p => (p.1, p.2 + 3)
  | 'u' :: cs => (hexDigits 4 cs).map fun p => ([p.1], 5)
  | '\r' :: '\n' :: _ => some ([], 2)
  | c :: cs =>
    if c = '0' && !cs.head?.any Char.isDigit then some ([0], 1)
    else if c.isDigit then none
    else if c = '\n' || c = '\r' || c = '\u2028' || c = '\u2029' then some ([], 1)
    else some (escapedUnits c, 1)

/-! ## Literals -/

/-- A character of a name. -/
def isNameChar (c : Char) : Bool := isWord c || c == '$'

/-- A name that can stand as an expression: characters of names, and no digit at first. -/
def isName : List Char → Bool
  | [] => false
  | c :: cs => !c.isDigit && (c :: cs).all isNameChar

/-- What a name between braces stands for, and how many characters belong to it. -/
def substitution? (values : String → List Nat) (cs : List Char) : Option (List Nat × Nat) :=
  let name := cs.takeWhile isNameChar
  if isName name && (cs.drop name.length).head? = some '\x7d' then
    some (values (String.ofList name), name.length + 1)
  else none

/-- What a character inside a literal stands for, and how many of the characters behind it belong
to it. Between backticks, a name in braces behind a dollar stands for its value, and all line breaks
are the same; between quotes, there are none. -/
def unit? (values : String → List Nat) (d c : Char) (cs : List Char) : Option (List Nat × Nat) :=
  if c = '\\' then escape? cs
  else if d = '`' then
    match c, cs with
    | '$', '\x7b' :: cs => (substitution? values cs).map fun p => (p.1, p.2 + 1)
    | '\r', '\n' :: _ => some ([0xA], 1)
    | '\r', _ => some ([0xA], 0)
    | c, _ => some (codeUnits c.toNat, 0)
  else if c = '\n' || c = '\r' then none
  else some (codeUnits c.toNat, 0)

/-- What a literal holds from a place inside it on. Its delimiter ends the text; `skip` characters
belong to what stands before them. -/
def literalFrom (values : String → List Nat) (d : Char) : (skip : Nat) → List Char →
    Option (List Nat)
  | _, [] => none
  | skip + 1, _ :: cs => literalFrom values d skip cs
  | 0, c :: cs =>
    if c = d then if cs.isEmpty then some [] else none
    else (unit? values d c cs).bind fun p => (literalFrom values d p.2 cs).map (p.1 ++ ·)

/-- The value of a literal, given the values of names. -/
def evaluate (values : String → List Nat) (literal : String) : Option (List Nat) :=
  match literal.toList with
  | [] => none
  | d :: cs => if d = '"' || d = '\'' || d = '`' then literalFrom values d 0 cs else none

/-! ## Reading on -/

variable {values : String → List Nat} {d c : Char} {cs : List Char}

theorem literalFrom_eq_drop (skip : Nat) (cs : List Char) :
    literalFrom values d skip cs = literalFrom values d 0 (cs.drop skip) := by
  induction cs generalizing skip with
  | nil => rw [List.drop_nil, literalFrom, literalFrom]
  | cons c cs ih =>
    cases skip with
    | zero => rfl
    | succ skip => rw [literalFrom, ih, List.drop_succ_cons]

theorem literalFrom_delimiter : literalFrom values d 0 [d] = some [] := by
  rw [literalFrom, if_pos rfl]
  rfl

theorem literalFrom_cons (hc : c ≠ d) : literalFrom values d 0 (c :: cs) =
    (unit? values d c cs).bind fun p => (literalFrom values d 0 (cs.drop p.2)).map (p.1 ++ ·) := by
  rw [literalFrom, if_neg hc]
  congr 1
  funext p
  rw [literalFrom_eq_drop p.2 cs]

/-- A place that is read goes before the rest. -/
theorem literalFrom_of_unit? (hc : c ≠ d) {v : List Nat} {n : Nat}
    (h : unit? values d c cs = some (v, n)) :
    literalFrom values d 0 (c :: cs) = (literalFrom values d 0 (cs.drop n)).map (v ++ ·) := by
  rw [literalFrom_cons hc, h]
  rfl

/-- An escape, a name in braces and a character beyond the first plane, place by place. -/
example : evaluate (fun _ => units ['7']) "`\\x41$\x7bid\x7d😀`" =
    some [0x41, 0x37, 0xD83D, 0xDE00] := by
  decide

theorem forall_isNameChar (h : isName cs = true) : ∀ c ∈ cs, isNameChar c = true := by
  cases cs with
  | nil => exact nofun
  | cons c cs =>
    rw [isName, Bool.and_eq_true] at h
    exact List.all_eq_true.mp h.2

/-! ## Texts in quotes -/

theorem unit?_escaped (hc : c = '\\' ∨ c = '"' ∨ c = '\'' ∨ c = '`') :
    unit? values d '\\' (c :: cs) = some (codeUnits c.toNat, 1) := by
  rcases hc with rfl | rfl | rfl | rfl <;> rfl

theorem unit?_quoted (hd : d ≠ '`') (hc : c ≠ '\\') : unit? values d c cs =
    if c = '\n' ∨ c = '\r' then none else some (codeUnits c.toNat, 0) := by
  unfold unit?
  rw [if_neg hc, if_neg hd]
  simp only [Bool.or_eq_true, decide_eq_true_eq]

/-- **A text in quotes is read back, unless it has a line break.** -/
theorem literalFrom_escape (hd : d = '"' ∨ d = '\'') (cs : List Char) :
    literalFrom values d 0 (escape d cs ++ [d]) =
      if '\n' ∈ cs ∨ '\r' ∈ cs then none else some (units cs) := by
  have hticks : d ≠ '`' := by rcases hd with rfl | rfl <;> decide
  have hslash : '\\' ≠ d := by rcases hd with rfl | rfl <;> decide
  induction cs with
  | nil => exact literalFrom_delimiter
  | cons c cs ih =>
    have hunits : units (c :: cs) = codeUnits c.toNat ++ units cs := List.flatMap_cons
    rw [escape, hunits]
    by_cases hescaped : c = '\\' ∨ c = d
    · have hself : c = '\\' ∨ c = '"' ∨ c = '\'' ∨ c = '`' := by
        rcases hescaped with rfl | rfl
        · exact Or.inl rfl
        · exact Or.inr (hd.imp_right Or.inl)
      have hbreak : c ≠ '\n' ∧ c ≠ '\r' := by
        rcases hself with rfl | rfl | rfl | rfl <;> decide
      rw [if_pos hescaped, List.cons_append, List.cons_append,
        literalFrom_of_unit? hslash (unit?_escaped hself), List.drop_succ_cons, List.drop_zero, ih]
      simp only [List.mem_cons, Ne.symm hbreak.1, Ne.symm hbreak.2, false_or]
      split_ifs <;> rfl
    · rw [if_neg hescaped, List.cons_append]
      rw [not_or] at hescaped
      rw [literalFrom_cons hescaped.2, unit?_quoted hticks hescaped.1]
      by_cases hbreak : c = '\n' ∨ c = '\r'
      · have hmem : '\n' ∈ c :: cs ∨ '\r' ∈ c :: cs := by
          rcases hbreak with rfl | rfl
          · exact Or.inl List.mem_cons_self
          · exact Or.inr List.mem_cons_self
        rw [if_pos hbreak, if_pos hmem]
        rfl
      · rw [if_neg hbreak, Option.bind_some, List.drop_zero, ih]
        rw [not_or] at hbreak
        simp only [List.mem_cons, Ne.symm hbreak.1, Ne.symm hbreak.2, false_or]
        split_ifs <;> rfl

/-! ## Room between backticks -/

/-- Two for each code unit of a value, and one more for each backtick. -/
def weight (v : List Nat) : Nat := 2 * v.length + v.count 96

/-- Two for each code unit of a character, but one for a backslash. -/
def room (c : Char) : Nat := if c = '\\' then 1 else 2 * (codeUnits c.toNat).length

/-- The room that a text has. -/
def rooms : List Char → Nat
  | [] => 0
  | c :: cs => room c + rooms cs

/-- Each value is its name in braces. -/
def spelt (n : String) : List Nat := units ('$' :: '\x7b' :: (n.toList ++ ['\x7d']))

theorem weight_append (v w : List Nat) : weight (v ++ w) = weight v + weight w := by
  unfold weight
  rw [List.length_append, List.count_append]
  omega

theorem rooms_cons (c : Char) (cs : List Char) : rooms (c :: cs) = room c + rooms cs := rfl

theorem rooms_append (a b : List Char) : rooms (a ++ b) = rooms a + rooms b := by
  induction a with
  | nil => exact (Nat.zero_add _).symm
  | cons c a ih => rw [List.cons_append, rooms_cons, ih, rooms_cons, Nat.add_assoc]

theorem one_le_length_codeUnits (n : Nat) : 1 ≤ (codeUnits n).length := by
  unfold codeUnits
  split_ifs
  · exact Nat.le_refl _
  · exact Nat.le_succ 1

theorem weight_codeUnits {n : Nat} (hn : n ≠ 96) :
    weight (codeUnits n) = 2 * (codeUnits n).length := by
  have hcount : (codeUnits n).count 96 = 0 := by
    rw [List.count_eq_zero]
    unfold codeUnits
    split_ifs
    · rw [List.mem_singleton]
      exact Ne.symm hn
    · rw [List.mem_pair]
      omega
  rw [weight, hcount, Nat.add_zero]

theorem weight_codeUnits_le (n : Nat) : weight (codeUnits n) ≤ 4 := by
  by_cases hn : n = 96
  · rw [hn]
    decide
  · rw [weight_codeUnits hn]
    unfold codeUnits
    split_ifs
    · exact Nat.le_add_left 2 2
    · exact Nat.le_refl _

theorem weight_singleton_le (n : Nat) : weight [n] ≤ 3 :=
  Nat.add_le_add_left List.count_le_length 2

/-- A character other than a backtick has the room that its code units take. -/
theorem weight_codeUnits_toNat {c : Char} (hslash : c ≠ '\\') (htick : c ≠ '`') :
    weight (codeUnits c.toNat) = room c := by
  have hn : c.toNat ≠ 96 := fun h => htick (Char.toNat_inj.mp h)
  rw [weight_codeUnits hn, room, if_neg hslash]

theorem weight_units {cs : List Char} (hslash : '\\' ∉ cs) (htick : '`' ∉ cs) :
    weight (units cs) = rooms cs := by
  induction cs with
  | nil => rfl
  | cons c cs ih =>
    rw [List.mem_cons, not_or] at hslash htick
    have hunits : units (c :: cs) = codeUnits c.toNat ++ units cs := List.flatMap_cons
    rw [hunits, weight_append, rooms_cons, ih hslash.2 htick.2,
      weight_codeUnits_toNat (Ne.symm hslash.1) (Ne.symm htick.1)]

theorem one_le_room (c : Char) : 1 ≤ room c := by
  have hlength := one_le_length_codeUnits c.toNat
  unfold room
  split_ifs
  · exact Nat.le_refl _
  · omega

theorem length_le_rooms (cs : List Char) : cs.length ≤ rooms cs := by
  induction cs with
  | nil => exact Nat.zero_le _
  | cons c cs ih =>
    have hroom := one_le_room c
    rw [rooms_cons, List.length_cons]
    omega

theorem le_length_of_hexDigits {count : Nat} {p : Nat × List Char}
    (h : hexDigits count cs = some p) : count ≤ cs.length := by
  induction count generalizing cs p with
  | zero => exact Nat.zero_le _
  | succ count ih =>
    cases cs with
    | nil => cases h
    | cons c cs =>
      simp only [hexDigits, Option.bind_eq_bind, Option.bind_eq_some_iff] at h
      obtain ⟨_, -, _, hrest, -⟩ := h
      exact Nat.succ_le_succ (ih hrest)

/-- A backslash and the characters behind it have room for two more than their number. -/
theorem weight_le_of_length {v : List Nat} {n : Nat} (hn : n ≤ cs.length) (hv : weight v ≤ n + 1) :
    weight v ≤ 1 + rooms (cs.take n) := by
  have hlength := length_le_rooms (cs.take n)
  rw [List.length_take, Nat.min_eq_left hn] at hlength
  omega

theorem weight_escapedUnits_le (c : Char) : weight (escapedUnits c) ≤ 1 + room c := by
  have hroom := one_le_room c
  have hcontrol : ∀ n : Nat, n ≠ 96 → weight [n] ≤ 1 + room c := by
    intro n hn
    rw [weight, List.count_singleton, if_neg (by simpa using hn)]
    simp only [List.length_singleton]
    omega
  unfold escapedUnits
  split
  · exact hcontrol 0x8 (by decide)
  · exact hcontrol 0x9 (by decide)
  · exact hcontrol 0xA (by decide)
  · exact hcontrol 0xB (by decide)
  · exact hcontrol 0xC (by decide)
  · exact hcontrol 0xD (by decide)
  · by_cases hslash : c = '\\'
    · rw [hslash]
      decide
    · by_cases htick : c = '`'
      · rw [htick]
        decide
      · rw [weight_codeUnits_toNat hslash htick]
        exact Nat.le_add_left _ _

theorem bracedPoint?_bounds {p : List Nat × Nat} (h : bracedPoint? cs = some p) :
    weight p.1 ≤ 4 ∧ 1 ≤ p.2 ∧ p.2 + 1 ≤ cs.length := by
  unfold bracedPoint? at h
  dsimp only at h
  split_ifs at h with hrefused
  simp only [Bool.or_eq_true, not_or, bne_iff_ne, ne_eq, not_not, List.isEmpty_iff] at hrefused
  obtain ⟨⟨hdigits, hclose⟩, -⟩ := hrefused
  obtain rfl := Option.some.inj h
  refine ⟨weight_codeUnits_le _, List.length_pos_of_ne_nil hdigits, ?_⟩
  rw [List.head?_drop] at hclose
  exact (List.getElem?_eq_some_iff.mp hclose).1

/-- A backslash and what follows it have the room for what they stand for. -/
theorem weight_le_of_escape? {v : List Nat} {n : Nat} (h : escape? cs = some (v, n)) :
    weight v ≤ 1 + rooms (cs.take n) := by
  unfold escape? at h
  split at h
  · cases h
  · obtain ⟨p, hp, heq⟩ := Option.map_eq_some_iff.mp h
    cases heq
    refine weight_le_of_length (Nat.succ_le_succ (le_length_of_hexDigits hp)) ?_
    exact Nat.le_trans (weight_singleton_le _) (by decide)
  · obtain ⟨p, hp, heq⟩ := Option.map_eq_some_iff.mp h
    cases heq
    -- two units at most, against the braces, their letter and one digit
    obtain ⟨hweight, hdigit, hlength⟩ := bracedPoint?_bounds hp
    refine weight_le_of_length (Nat.succ_le_succ (Nat.succ_le_succ hlength)) ?_
    omega
  · obtain ⟨p, hp, heq⟩ := Option.map_eq_some_iff.mp h
    cases heq
    refine weight_le_of_length (Nat.succ_le_succ (le_length_of_hexDigits hp)) ?_
    exact Nat.le_trans (weight_singleton_le _) (by decide)
  · cases h
    exact Nat.zero_le _
  · rename_i c cs _ _ _ _
    have hone : rooms ((c :: cs).take 1) = room c := rfl
    split_ifs at h
    · cases h
      have hroom := one_le_room c
      rw [hone]
      exact Nat.add_le_add_left hroom 1
    · cases h
      exact Nat.zero_le _
    · cases h
      rw [hone]
      exact weight_escapedUnits_le c

/-- A name in braces has just the room for its spelling. -/
theorem weight_spelt {n : String} (hn : isName n.toList = true) :
    weight (spelt n) = rooms ('$' :: '\x7b' :: (n.toList ++ ['\x7d'])) := by
  have hbare : ∀ c, isNameChar c = false → c ∉ ['$', '\x7b', '\x7d'] →
      c ∉ '$' :: '\x7b' :: (n.toList ++ ['\x7d']) := by
    intro c hc hmarks
    have hname : c ∉ n.toList := fun hmem => by
      rw [forall_isNameChar hn c hmem] at hc
      cases hc
    simp only [List.mem_cons, List.not_mem_nil, or_false, not_or] at hmarks
    simp only [List.mem_cons, List.mem_append, List.not_mem_nil, or_false, not_or]
    exact ⟨hmarks.1, hmarks.2.1, hname, hmarks.2.2⟩
  exact weight_units (hbare _ (by decide) (by decide)) (hbare _ (by decide) (by decide))

theorem weight_le_of_substitution? {v : List Nat} {n : Nat}
    (h : substitution? spelt cs = some (v, n)) :
    weight v ≤ rooms ('$' :: '\x7b' :: cs.take n) := by
  unfold substitution? at h
  dsimp only at h
  generalize hname : cs.takeWhile isNameChar = name at h
  split_ifs at h with hread
  rw [Bool.and_eq_true, decide_eq_true_eq] at hread
  obtain ⟨hisName, hclose⟩ := hread
  cases h
  have hprefix : name <+: cs := by
    rw [← hname]
    exact List.takeWhile_prefix _
  have htake : cs.take (name.length + 1) = name ++ ['\x7d'] := by
    rw [List.take_add_one, ← List.prefix_iff_eq_take.mp hprefix, ← List.head?_drop, hclose]
    rfl
  have hweight := weight_spelt (n := String.ofList name) (by rwa [String.toList_ofList])
  rw [String.toList_ofList] at hweight
  rw [htake]
  exact Nat.le_of_eq hweight

/-- **A place of a template literal has the room for what it stands for.** -/
theorem weight_le_of_unit? {v : List Nat} {n : Nat} (hc : c ≠ '`')
    (h : unit? spelt '`' c cs = some (v, n)) : weight v ≤ rooms (c :: cs.take n) := by
  unfold unit? at h
  by_cases hslash : c = '\\'
  · rw [if_pos hslash] at h
    rw [hslash]
    exact weight_le_of_escape? h
  rw [if_neg hslash, if_pos rfl] at h
  split at h
  · obtain ⟨p, hp, heq⟩ := Option.map_eq_some_iff.mp h
    cases heq
    exact weight_le_of_substitution? hp
  · cases h
    exact Nat.le_add_right 2 _
  · cases h
    exact Nat.le_add_right 2 _
  · cases h
    rw [weight_codeUnits_toNat hslash hc]
    exact Nat.le_add_right _ _

/-- **A template literal has the room for its value and its delimiter.** -/
theorem weight_le_of_literalFrom {skip : Nat} {v : List Nat}
    (h : literalFrom spelt '`' skip cs = some v) : weight v + 2 ≤ rooms (cs.drop skip) := by
  induction cs generalizing skip v with
  | nil => cases h
  | cons c cs ih =>
    cases skip with
    | succ skip => exact ih h
    | zero =>
      rw [literalFrom] at h
      split_ifs at h with hc hend
      · cases h
        rw [hc, List.isEmpty_iff.mp hend]
        decide
      · obtain ⟨⟨u, n⟩, hunit, hrest⟩ := Option.bind_eq_some_iff.mp h
        obtain ⟨w, hw, rfl⟩ := Option.map_eq_some_iff.mp hrest
        have hhead := weight_le_of_unit? hc hunit
        have htail : weight w + 2 ≤ rooms (cs.drop n) := ih hw
        have hcs : rooms cs = rooms (cs.take n) + rooms (cs.drop n) := by
          rw [← rooms_append, List.take_append_drop]
        rw [rooms_cons] at hhead
        rw [List.drop_zero, weight_append, rooms_cons, hcs]
        dsimp only
        omega

end ApiSurface.Client
