import ApiSurface.Toml.Document
import ApiSurface.Toml.Writer
import Mathlib.Data.List.Basic

/-!
# Written texts are read back

* `exists_escape`: what stands for a character by an escape;
* `basicLine_lineBody`, `basicBlock_blockBody`, `literalLine_append`, `literalBlock_append`: the
  contents of the four forms;
* `string_textOf`: a text in its form.
-/

namespace ApiSurface.Toml

open ApiSurface.Text (hexValue? hexDigits codedChar charOf?)

/-- A text that starts with what may stand behind a value: a comma, a bracket or a line break. -/
def Closing (r : List Char) : Prop := ∃ c ∈ [',', ']', '\n'], ∃ s, r = c :: s

/-! ## Characters -/

theorem isPlain_of_not_isControl {c : Char} (h : isControl c = false) (hn : c ≠ '\n') :
    isPlain c = true := by
  by_cases ht : c = '\t'
  · simp [isPlain, ht]
  · simp only [isControl, isPlain, Bool.or_eq_false_iff, Bool.and_eq_false_iff, bne_eq_false_iff_eq,
      decide_eq_false_iff_not, beq_eq_false_iff_ne, Bool.or_eq_true, Bool.and_eq_true,
      decide_eq_true_eq, bne_iff_ne, ht, hn, or_false] at h ⊢
    omega

theorem ne_return_of_not_isControl {c : Char} (h : isControl c = false) : c ≠ '\r' := by
  rintro rfl
  exact absurd h (by decide)

theorem hexValue?_hexDigit : ∀ n < 16, hexValue? (hexDigit n) = some n := by decide

/-- A character of one byte, by its code point. -/
theorem codedChar_hexDigit {n : Nat} (h : n < 128) (r : List Char) :
    codedChar 4 ('0' :: '0' :: hexDigit (n / 16) :: hexDigit (n % 16) :: r) =
      some (Char.ofNat n, r) := by
  have h0 : hexValue? '0' = some 0 := by decide
  have h1 := hexValue?_hexDigit (n / 16) (by omega)
  have h2 := hexValue?_hexDigit (n % 16) (by omega)
  have hn : n / 16 * 16 + n % 16 = n := by omega
  have hc : charOf? n = some (Char.ofNat n) := if_pos (by omega)
  simp [codedChar, hexDigits, h0, h1, h2, hn, hc]

/-- An escape starts with a backslash, no line ends behind it, and it is read as its character. -/
theorem exists_escape {c : Char} {e : List Char} (h : escapeOf? c = some e) :
    ∃ d ds, e = '\\' :: d :: ds ∧ (isBlank d = false ∧ d ≠ '\n' ∧ d ≠ '\r') ∧
      ∀ r, escaped (d :: (ds ++ r)) = some (c, r) := by
  unfold escapeOf? at h
  split_ifs at h with hb ht hf hr hs hc
  all_goals cases h
  · exact ⟨'b', [], rfl, by decide, fun r => by rw [hb]; rfl⟩
  · exact ⟨'t', [], rfl, by decide, fun r => by rw [ht]; rfl⟩
  · exact ⟨'f', [], rfl, by decide, fun r => by rw [hf]; rfl⟩
  · exact ⟨'r', [], rfl, by decide, fun r => by rw [hr]; rfl⟩
  · exact ⟨'\\', [], rfl, by decide, fun r => by rw [hs]; rfl⟩
  · have hlt : c.val.toNat < 128 := by
      simp only [isControl, Bool.or_eq_true, Bool.and_eq_true, decide_eq_true_eq, beq_iff_eq] at hc
      omega
    refine ⟨'u', _, rfl, by decide, fun r => (codedChar_hexDigit hlt r).trans ?_⟩
    exact congrArg (fun d => some (d, r)) (Char.ofNat_toNat c)

/-- A character without an escape stands for itself, a line break and a quote apart. -/
theorem plain_of_escapeOf?_eq_none {c : Char} (h : escapeOf? c = none) :
    isControl c = false ∧ c ≠ '\\' := by
  unfold escapeOf? at h
  split_ifs at h with hb ht hf hr hs hc
  exact ⟨by simpa using hc, hs⟩

/-! ## Texts on one line -/

section Line

variable {c : Char} {cs r : List Char} {fuel : Nat}

theorem basicLine_escape {s : List Char} (h : escaped s = some (c, r)) :
    basicLine (fuel + 1) ('\\' :: s) = (basicLine fuel r).map (consChar c) := by
  rw [basicLine, h]
  rfl

theorem basicLine_plain (h : isPlain c = true) (hq : c ≠ '"') (hs : c ≠ '\\') :
    basicLine (fuel + 1) (c :: r) = (basicLine fuel r).map (consChar c) := by
  rw [basicLine]
  · rw [if_pos h]
  · exact hq
  · exact hs

theorem basicLine_lineBody (hf : (lineBody cs).length < fuel) :
    basicLine fuel (lineBody cs ++ '"' :: r) = some (cs, r) := by
  induction cs generalizing fuel with
  | nil =>
    obtain ⟨fuel, rfl⟩ := Nat.exists_eq_succ_of_ne_zero (Nat.ne_zero_of_lt hf)
    rfl
  | cons c cs ih =>
    obtain ⟨fuel, rfl⟩ := Nat.exists_eq_succ_of_ne_zero (Nat.ne_zero_of_lt hf)
    have ih (h : (lineBody cs).length < fuel) := congrArg (Option.map (consChar c)) (ih h)
    rw [lineBody, List.flatMap_cons, ← lineBody] at hf ⊢
    rw [List.length_append] at hf
    rw [List.append_assoc]
    split_ifs at hf ⊢ with hn hq
    · rw [hn] at ih ⊢
      exact (basicLine_escape rfl).trans (ih (by simp at hf; omega))
    · rw [hq] at ih ⊢
      exact (basicLine_escape rfl).trans (ih (by simp at hf; omega))
    · cases he : escapeOf? c with
      | none =>
        obtain ⟨hc, hs⟩ := plain_of_escapeOf?_eq_none he
        rw [he] at hf
        exact (basicLine_plain (isPlain_of_not_isControl hc hn) hq hs).trans
          (ih (by simp at hf; omega))
      | some e =>
        obtain ⟨d, ds, rfl, -, hd⟩ := exists_escape he
        rw [he] at hf
        exact (basicLine_escape (hd _)).trans (ih (by simp at hf; omega))

theorem literalLine_append (hc : ∀ c ∈ cs, isControl c = false ∧ c ≠ '\'' ∧ c ≠ '\n') :
    literalLine (cs ++ '\'' :: r) = some (cs, r) := by
  induction cs with
  | nil => rfl
  | cons c cs ih =>
    obtain ⟨⟨hc, hq, hn⟩, hcs⟩ := List.forall_mem_cons.mp hc
    rw [List.cons_append, literalLine, if_neg hq, if_pos (isPlain_of_not_isControl hc hn), ih hcs]
    rfl

end Line

/-! ## Texts over several lines -/

section Block

variable {q c : Char} {cs s r : List Char} {fuel : Nat}

/-- Two quotes at most stand in front of the closing ones: all of them are read at once. -/
theorem quotes_replicate {k : Nat} (hk : k ≤ 2) (hr : ∀ d ∈ r.head?, d ≠ q) :
    quotes q (List.replicate k q ++ q :: q :: q :: r) = (k, some r) := by
  have ht : r.takeWhile (· == q) = [] := by
    cases r with
    | nil => rfl
    | cons d r => exact List.takeWhile_cons_of_neg (by simpa using hr d rfl)
  have hrun : (List.replicate k q ++ q :: q :: q :: r).takeWhile (· == q) =
      List.replicate k q ++ [q, q, q] := by
    rw [List.takeWhile_append_of_pos (by simp +contextual [List.mem_replicate])]
    simp [ht]
  have hdrop : (List.replicate k q ++ q :: q :: q :: r).drop (k + 3) = r := by
    rw [← List.drop_drop, List.drop_left' List.length_replicate]
    rfl
  have hmin : min (k + 3) 5 = k + 3 := by omega
  simp [quotes, hrun, hdrop, hmin]

/-- Quotes in front of another character do not close a text if there are two at most. -/
theorem quotes_of_not_all (hc : (cs.takeWhile (· == q)).length ≤ 2) (hq : ∃ c ∈ cs, c ≠ q) :
    (quotes q (cs ++ s)).2 = none := by
  have hrun : (cs ++ s).takeWhile (· == q) = cs.takeWhile (· == q) := by
    obtain ⟨c, hc, hne⟩ := hq
    rw [List.takeWhile_append, if_neg]
    intro h
    have hall := (List.takeWhile_prefix (· == q)).eq_of_length h ▸ List.all_takeWhile
    exact hne (by simpa using List.all_eq_true.mp hall c hc)
  rw [quotes, hrun, if_pos (Nat.lt_succ_of_le hc)]

theorem exists_replicate_append_eq_cons (k : Nat) (q : Char) (s : List Char) :
    ∃ t, List.replicate k q ++ q :: s = q :: t := by
  cases k with
  | zero => exact ⟨s, rfl⟩
  | succ k => exact ⟨List.replicate k q ++ q :: s, rfl⟩

theorem afterBreak_of_ne (hn : c ≠ '\n') (hr : c ≠ '\r') : afterBreak (c :: s) = none := by
  unfold afterBreak
  split <;> simp_all

theorem joinedLine_of_ne (hb : isBlank c = false) (hn : c ≠ '\n') (hr : c ≠ '\r') :
    joinedLine fuel (c :: s) = none := by
  rw [joinedLine, skipBlanks, List.dropWhile_cons_of_neg (by simp [hb]), afterBreak_of_ne hn hr]
  rfl

theorem basicBlock_escape {d : Char} (hd : isBlank d = false ∧ d ≠ '\n' ∧ d ≠ '\r')
    (h : escaped (d :: s) = some (c, r)) :
    basicBlock (fuel + 1) ('\\' :: d :: s) = (basicBlock fuel r).map (consChar c) := by
  simp only [basicBlock, joinedLine_of_ne hd.1 hd.2.1 hd.2.2, h]
  rfl

theorem basicBlock_plain (h : isPlain c = true) (hq : c ≠ '"') (hs : c ≠ '\\') (hn : c ≠ '\n')
    (hr : c ≠ '\r') : basicBlock (fuel + 1) (c :: r) = (basicBlock fuel r).map (consChar c) := by
  rw [basicBlock]
  · simp only [afterBreak_of_ne hn hr, h, if_true]
  · exact hq
  · exact hs

theorem basicBlock_quote (hc : (('"' :: cs).takeWhile (· == '"')).length ≤ 2)
    (hq : ∃ c ∈ '"' :: cs, c ≠ '"') :
    basicBlock (fuel + 1) ('"' :: (cs ++ s)) = (basicBlock fuel (cs ++ s)).map (consChar '"') := by
  have h : (quotes '"' ('"' :: (cs ++ s))).2 = none := quotes_of_not_all hc hq
  rw [basicBlock]
  split <;> simp_all

theorem basicBlock_close {k : Nat} (hk : k ≤ 2) (hr : ∀ d ∈ r.head?, d ≠ '"') :
    basicBlock (fuel + 1) (List.replicate k '"' ++ '"' :: '"' :: '"' :: r) =
      some (List.replicate k '"', r) := by
  have h := quotes_replicate hk hr
  obtain ⟨s, hs⟩ := exists_replicate_append_eq_cons k '"' ('"' :: '"' :: r)
  rw [hs] at h ⊢
  simp only [basicBlock, h]

theorem literalBlock_plain (h : isPlain c = true) (hq : c ≠ '\'') (hn : c ≠ '\n') (hr : c ≠ '\r') :
    literalBlock (fuel + 1) (c :: r) = (literalBlock fuel r).map (consChar c) := by
  rw [literalBlock]
  · simp only [afterBreak_of_ne hn hr, h, if_true]
  · exact hq

theorem literalBlock_quote (hc : (('\'' :: cs).takeWhile (· == '\'')).length ≤ 2)
    (hq : ∃ c ∈ '\'' :: cs, c ≠ '\'') :
    literalBlock (fuel + 1) ('\'' :: (cs ++ s)) =
      (literalBlock fuel (cs ++ s)).map (consChar '\'') := by
  have h : (quotes '\'' ('\'' :: (cs ++ s))).2 = none := quotes_of_not_all hc hq
  rw [literalBlock]
  split <;> simp_all

theorem literalBlock_close {k : Nat} (hk : k ≤ 2) (hr : ∀ d ∈ r.head?, d ≠ '\'') :
    literalBlock (fuel + 1) (List.replicate k '\'' ++ '\'' :: '\'' :: '\'' :: r) =
      some (List.replicate k '\'', r) := by
  have h := quotes_replicate hk hr
  obtain ⟨s, hs⟩ := exists_replicate_append_eq_cons k '\'' ('\'' :: '\'' :: r)
  rw [hs] at h ⊢
  simp only [literalBlock, h]

theorem le_longestRun (q : Char) (here longest : Nat) (cs : List Char) :
    longest ≤ longestRun q here longest cs := by
  induction cs generalizing here longest with
  | nil => exact Nat.le_max_right _ _
  | cons c cs ih =>
    rw [longestRun]
    split_ifs
    · exact ih _ _
    · exact Nat.le_trans (Nat.le_max_right here longest) (ih 0 _)

theorem add_takeWhile_le_longestRun (q : Char) (here longest : Nat) (cs : List Char) :
    here + (cs.takeWhile (· == q)).length ≤ longestRun q here longest cs := by
  induction cs generalizing here with
  | nil => exact Nat.le_max_left _ _
  | cons c cs ih =>
    by_cases h : c = q
    · have := ih (here + 1)
      simp only [longestRun, List.takeWhile_cons, h, beq_self_eq_true, if_true, List.length_cons]
      omega
    · simp only [longestRun, List.takeWhile_cons, h, beq_eq_false_iff_ne.mpr h, if_false,
        Bool.false_eq_true, List.length_nil, Nat.add_zero]
      exact Nat.le_trans (Nat.le_max_left here longest) (le_longestRun q 0 _ cs)

/-- The runs of quotes are counted up to the place where the rest starts. -/
theorem literalBlock_append {here longest : Nat} (hc : ∀ c ∈ cs, isControl c = false)
    (hrun : longestRun '\'' here longest cs ≤ 2) (hr : ∀ d ∈ r.head?, d ≠ '\'')
    (hf : cs.length < fuel) :
    literalBlock fuel (cs ++ '\'' :: '\'' :: '\'' :: r) = some (cs, r) := by
  induction cs generalizing fuel here longest with
  | nil =>
    obtain ⟨fuel, rfl⟩ := Nat.exists_eq_succ_of_ne_zero (Nat.ne_zero_of_lt hf)
    exact literalBlock_close (Nat.zero_le 2) hr
  | cons c cs ih =>
    obtain ⟨fuel, rfl⟩ := Nat.exists_eq_succ_of_ne_zero (Nat.ne_zero_of_lt hf)
    obtain ⟨hcontrol, hcs⟩ := List.forall_mem_cons.mp hc
    have hcount := Nat.le_trans (add_takeWhile_le_longestRun '\'' here longest (c :: cs)) hrun
    have ih (i j : Nat) (h : longestRun '\'' i j cs ≤ 2) :=
      congrArg (Option.map (consChar c)) (ih hcs h (Nat.lt_of_succ_lt_succ hf))
    by_cases hq : c = '\''
    · subst hq
      -- the run of quotes is the closing one only if nothing else follows in the text
      by_cases hall : ∀ d ∈ '\'' :: cs, d = '\''
      · rw [List.eq_replicate_iff.mpr ⟨rfl, hall⟩] at hcount ⊢
        exact literalBlock_close (by simp at hcount ⊢; omega) hr
      · push Not at hall
        exact (literalBlock_quote (by omega) hall).trans (ih _ _ (by simpa [longestRun] using hrun))
    · have hrun : longestRun '\'' 0 (max here longest) cs ≤ 2 := by
        simpa [longestRun, hq] using hrun
      by_cases hn : c = '\n'
      · subst hn
        exact ih _ _ hrun
      · exact (literalBlock_plain (isPlain_of_not_isControl hcontrol hn) hq hn
          (ne_return_of_not_isControl hcontrol)).trans (ih _ _ hrun)

/-- Written quotes never stand in a row of three. -/
theorem add_takeWhile_blockBody_le {k : Nat} (hk : k ≤ 2) (cs : List Char) :
    k + ((blockBody k cs).takeWhile (· == '"')).length ≤ 2 := by
  induction cs generalizing k with
  | nil => exact hk
  | cons c cs ih =>
    rw [blockBody]
    split_ifs with hq h2
    · exact hk
    · have := ih (k := k + 1) (by omega)
      simp only [List.takeWhile_cons, beq_self_eq_true, if_true, List.length_cons]
      omega
    · cases he : escapeOf? c with
      | none => simpa [hq] using hk
      | some e =>
        obtain ⟨d, ds, rfl, -⟩ := exists_escape he
        exact hk

/-- Where only quotes are written, nothing is escaped. -/
theorem blockBody_eq_of_forall {k : Nat} {cs : List Char} (h : ∀ d ∈ blockBody k cs, d = '"') :
    blockBody k cs = cs := by
  induction cs generalizing k with
  | nil => rfl
  | cons c cs ih =>
    rw [blockBody] at h ⊢
    split_ifs at h ⊢ with hq h2
    · exact absurd (h '\\' List.mem_cons_self) (by decide)
    · rw [ih fun d hd => h d (List.mem_cons_of_mem _ hd), hq]
    · cases he : escapeOf? c with
      | none =>
        rw [he] at h
        exact absurd (h c List.mem_cons_self) hq
      | some e =>
        obtain ⟨d, ds, rfl, -⟩ := exists_escape he
        rw [he] at h
        exact absurd (h '\\' List.mem_cons_self) (by decide)

/-- The quotes that were written last in a row are counted, since they decide what is escaped. -/
theorem basicBlock_blockBody {k : Nat} (hk : k ≤ 2) (hr : ∀ d ∈ r.head?, d ≠ '"')
    (hf : (blockBody k cs).length < fuel) :
    basicBlock fuel (blockBody k cs ++ '"' :: '"' :: '"' :: r) = some (cs, r) := by
  induction cs generalizing fuel k with
  | nil =>
    obtain ⟨fuel, rfl⟩ := Nat.exists_eq_succ_of_ne_zero (Nat.ne_zero_of_lt hf)
    exact basicBlock_close (Nat.zero_le 2) hr
  | cons c cs ih =>
    obtain ⟨fuel, rfl⟩ := Nat.exists_eq_succ_of_ne_zero (Nat.ne_zero_of_lt hf)
    have hcount := add_takeWhile_blockBody_le hk (c :: cs)
    have ih {j : Nat} (hj : j ≤ 2) (h : (blockBody j cs).length < fuel) :=
      congrArg (Option.map (consChar c)) (ih hj h)
    by_cases hq : c = '"'
    · subst hq
      by_cases h2 : k = 2
      · have hbody : blockBody k ('"' :: cs) = '\\' :: '"' :: blockBody 0 cs := by
          simp [blockBody, h2]
        rw [hbody] at hf ⊢
        exact (basicBlock_escape (by decide) rfl).trans (ih (Nat.zero_le 2) (by simp at hf; omega))
      · have hbody : blockBody k ('"' :: cs) = '"' :: blockBody (k + 1) cs := by
          simp [blockBody, h2]
        -- as above, the run of quotes is the closing one only at the end of the text
        by_cases hall : ∀ d ∈ blockBody k ('"' :: cs), d = '"'
        · have heq := blockBody_eq_of_forall hall
          rw [heq] at hall hcount ⊢
          rw [List.eq_replicate_iff.mpr ⟨rfl, hall⟩] at hcount ⊢
          exact basicBlock_close (by simp at hcount ⊢; omega) hr
        · push Not at hall
          rw [hbody] at hf hcount hall ⊢
          exact (basicBlock_quote (by omega) hall).trans (ih (by omega) (by simp at hf; omega))
    · have hbody : blockBody k (c :: cs) = (escapeOf? c).getD [c] ++ blockBody 0 cs := by
        simp [blockBody, hq]
      rw [hbody] at hf ⊢
      cases he : escapeOf? c with
      | some e =>
        obtain ⟨d, ds, rfl, hd, hread⟩ := exists_escape he
        rw [he] at hf
        rw [Option.getD_some, List.append_assoc]
        exact (basicBlock_escape hd (hread _)).trans (ih (Nat.zero_le 2) (by simp at hf; omega))
      | none =>
        obtain ⟨hc, hs⟩ := plain_of_escapeOf?_eq_none he
        rw [he] at hf
        have hlt : (blockBody 0 cs).length < fuel := by simp at hf; omega
        by_cases hn : c = '\n'
        · subst hn
          exact ih (Nat.zero_le 2) hlt
        · exact (basicBlock_plain (isPlain_of_not_isControl hc hn) hq hs hn
            (ne_return_of_not_isControl hc)).trans (ih (Nat.zero_le 2) hlt)

end Block

/-! ## A text in its form -/

section Whole

variable {cs r : List Char}

theorem Closing.ne {c : Char} (h : Closing r) (hc : c ∉ [',', ']', '\n']) :
    ∀ d ∈ r.head?, d ≠ c := by
  obtain ⟨d, hd, s, rfl⟩ := h
  rintro _ ⟨⟩ rfl
  exact hc hd

/-- A text on one line does not open with three quotes. -/
theorem string_eq_lineString {q : Char} (h : ∀ d ∈ (cs ++ q :: r).head?, d = q → cs = [])
    (hr : ∀ d ∈ r.head?, d ≠ q) :
    string (q :: (cs ++ q :: r)) = lineString (q :: (cs ++ q :: r)) := by
  unfold string
  split
  · next s heq =>
    obtain ⟨rfl, heq⟩ := List.cons.inj heq
    cases h '"' (by rw [heq]; rfl) rfl
    exact absurd rfl (hr '"' (by rw [List.nil_append] at heq; cases heq; rfl))
  · next s heq =>
    obtain ⟨rfl, heq⟩ := List.cons.inj heq
    cases h '\'' (by rw [heq]; rfl) rfl
    exact absurd rfl (hr '\'' (by rw [List.nil_append] at heq; cases heq; rfl))
  · rfl

theorem head?_lineBody_ne (cs : List Char) : ∀ d ∈ (lineBody cs).head?, d ≠ '"' := by
  cases cs with
  | nil => nofun
  | cons c cs =>
    rw [lineBody, List.flatMap_cons]
    split_ifs with hn hq
    · rintro _ ⟨⟩
      decide
    · rintro _ ⟨⟩
      decide
    · cases he : escapeOf? c with
      | none =>
        rintro _ ⟨⟩
        exact hq
      | some e =>
        obtain ⟨d, ds, rfl, -⟩ := exists_escape he
        rintro _ ⟨⟩
        decide

/-- What a block starts with, if anything, is a line break of its own. -/
theorem withoutFirstBreak_start {body : List Char}
    (h : ∀ d ∈ body.head?, d ≠ '\r' ∧ (d = '\n' → cs.contains '\n')) :
    withoutFirstBreak ((if cs.contains '\n' then ['\n'] else []) ++ body) = body := by
  split_ifs with hn
  · rfl
  · cases body with
    | nil => rfl
    | cons d body =>
      have ⟨hr, hd⟩ := h d rfl
      have hb : afterBreak (d :: body) = none := afterBreak_of_ne (fun h => hn (hd h)) hr
      simp [withoutFirstBreak, hb]

theorem head?_blockBody (cs r : List Char) :
    ∀ d ∈ (blockBody 0 cs ++ '"' :: r).head?, d ≠ '\r' ∧ (d = '\n' → cs.contains '\n') := by
  cases cs with
  | nil =>
    rintro _ ⟨⟩
    decide
  | cons c cs =>
    by_cases hq : c = '"'
    · subst hq
      rintro _ ⟨⟩
      exact ⟨by decide, fun h => absurd h (by decide)⟩
    · rw [blockBody, if_neg hq]
      cases he : escapeOf? c with
      | none =>
        rintro _ ⟨⟩
        exact ⟨ne_return_of_not_isControl (plain_of_escapeOf?_eq_none he).1, by rintro rfl; simp⟩
      | some e =>
        obtain ⟨d, ds, rfl, -⟩ := exists_escape he
        rintro _ ⟨⟩
        exact ⟨by decide, fun h => absurd h (by decide)⟩

theorem string_basic (hr : Closing r) :
    string ('"' :: (lineBody cs ++ '"' :: r)) = some (cs, r) := by
  rw [string_eq_lineString _ (hr.ne (by decide))]
  · exact basicLine_lineBody (by rw [List.length_append]; omega)
  · cases h : lineBody cs with
    | nil => exact fun _ _ _ => rfl
    | cons d ds =>
      rintro _ ⟨⟩ rfl
      exact absurd rfl (head?_lineBody_ne cs '"' (by rw [h]; rfl))

theorem string_literal (hc : ∀ c ∈ cs, isControl c = false ∧ c ≠ '\'' ∧ c ≠ '\n') (hr : Closing r) :
    string ('\'' :: (cs ++ '\'' :: r)) = some (cs, r) := by
  rw [string_eq_lineString _ (hr.ne (by decide))]
  · exact literalLine_append hc
  · cases cs with
    | nil => exact fun _ _ _ => rfl
    | cons d ds =>
      rintro _ ⟨⟩ rfl
      exact absurd rfl (hc '\'' List.mem_cons_self).2.1

theorem string_basicBlock (hr : Closing r) :
    string ('"' :: '"' :: '"' :: ((if cs.contains '\n' then ['\n'] else []) ++
      (blockBody 0 cs ++ '"' :: '"' :: '"' :: r))) = some (cs, r) := by
  rw [string, withoutFirstBreak_start (head?_blockBody cs _)]
  exact basicBlock_blockBody (Nat.zero_le 2) (hr.ne (by decide)) (by simp; omega)

theorem string_literalBlock (hc : ∀ c ∈ cs, isControl c = false)
    (hrun : longestRun '\'' 0 0 cs ≤ 2) (hr : Closing r) :
    string ('\'' :: '\'' :: '\'' :: ((if cs.contains '\n' then ['\n'] else []) ++
      (cs ++ '\'' :: '\'' :: '\'' :: r))) = some (cs, r) := by
  rw [string, withoutFirstBreak_start]
  · exact literalBlock_append hc hrun (hr.ne (by decide)) (by simp; omega)
  · cases cs with
    | nil =>
      rintro _ ⟨⟩
      decide
    | cons c cs =>
      rintro _ ⟨⟩
      exact ⟨ne_return_of_not_isControl (hc c List.mem_cons_self), by rintro rfl; simp⟩

/-- What the choice of a form promises of the text in it; an escape can stand for anything. -/
theorem textForm_spec (cs : List Char) :
    (textForm cs = .literal → ∀ c ∈ cs, isControl c = false ∧ c ≠ '\'' ∧ c ≠ '\n') ∧
      (textForm cs = .literalBlock →
        (∀ c ∈ cs, isControl c = false) ∧ longestRun '\'' 0 0 cs ≤ 2) := by
  simp only [textForm]
  split_ifs with hbasic hliteral hbasicBlock hliteralBlock
  · exact ⟨nofun, nofun⟩
  · simp only [Bool.and_eq_true, Bool.not_eq_true', List.any_eq_false, List.contains_eq_mem,
      decide_eq_false_iff_not] at hliteral
    obtain ⟨⟨hcontrol, hquote⟩, hline⟩ := hliteral
    exact ⟨fun _ c hc => ⟨by simpa using hcontrol c hc, fun h => hquote (h ▸ hc),
      fun h => hline (h ▸ hc)⟩, nofun⟩
  · exact ⟨nofun, nofun⟩
  · simp only [Bool.and_eq_true, Bool.not_eq_true', List.any_eq_false, decide_eq_true_eq]
      at hliteralBlock
    exact ⟨nofun, fun _ => ⟨fun c hc => by simpa using hliteralBlock.1 c hc, hliteralBlock.2⟩⟩
  all_goals exact ⟨nofun, nofun⟩

/-- A text in its form is read as itself. -/
theorem string_textOf (hr : Closing r) : string (textOf cs ++ r) = some (cs, r) := by
  have ⟨hliteral, hblock⟩ := textForm_spec cs
  unfold textOf
  cases h : textForm cs with
  | basic => simpa using string_basic hr
  | literal => simpa using string_literal (hliteral h) hr
  | basicBlock => simpa using string_basicBlock hr
  | literalBlock => simpa using string_literalBlock (hblock h).1 (hblock h).2 hr

end Whole

end ApiSurface.Toml
