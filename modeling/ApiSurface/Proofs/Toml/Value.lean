import ApiSurface.Proofs.Toml.Text

/-!
# Written values are read back

* `Scalar`, `Inline`: truth values, natural numbers and texts, and lists of them;
* `integer_toDigits`, `moment_digits`, `real_digits`: digits are an integer and nothing else;
* `scalar_valueText`, `value_valueText`: a value behind its key.
-/

namespace ApiSurface.Toml

open ApiSurface.Number (ofDigits digitValue)

/-- Scalars that every setting is made of. -/
inductive Scalar : Value → Prop
  | bool (b : Bool) : Scalar (.bool b)
  | natural {n : Nat} (h : n ≤ Value.maxInteger) : Scalar (.integer n)
  | text (s : String) : Scalar (.text s)

/-- Values that stand on a line without a table in them. -/
inductive Inline : Value → Prop
  | scalar {v : Value} (h : Scalar v) : Inline v
  | list {vs : List Value} (h : ∀ v ∈ vs, Scalar v) : Inline (.list vs)

/-! ## Digits -/

theorem ofDigits_toDigits (n : Nat) : ofDigits (Nat.toDigits 10 n) = n := by
  have h : (fun (n : Nat) (c : Char) => n * 10 + digitValue c) =
      fun n c => 10 * n + (c.toNat - '0'.toNat) := by
    funext n c
    rw [Nat.mul_comm]
    rfl
  rw [ofDigits, h, ← Nat.ofDigitChars_eq_foldl]
  exact Nat.ofDigitChars_ten_toDigits

theorem isDigit_toDigits (n : Nat) : ∀ d ∈ Nat.toDigits 10 n, d.isDigit = true :=
  fun _ hd => Nat.isDigit_of_mem_toDigits (by decide) (by decide) hd

theorem head?_toDigits_ne {n : Nat} (hn : n ≠ 0) : ∀ d ∈ (Nat.toDigits 10 n).head?, d ≠ '0' := by
  induction n using Nat.strongRecOn with
  | _ n ih =>
    by_cases h : n < 10
    · rw [Nat.toDigits_of_lt_base h]
      rintro _ ⟨⟩
      have hdigit : ∀ n < 10, n ≠ 0 → n.digitChar ≠ '0' := by decide
      exact hdigit n h hn
    · rw [Nat.toDigits_of_base_le (by decide) (by omega),
        List.head?_append_of_ne_nil _ Nat.toDigits_ne_nil]
      exact ih (n / 10) (by omega) (by omega)

section Digits

variable {c : Char} {ds r : List Char}

theorem ne_of_isDigit {d : Char} (h : c.isDigit = true) (hd : d.isDigit = false) : c ≠ d := by
  rintro rfl
  exact absurd h (by simp [hd])

theorem Closing.isDigit (h : Closing r) : ∀ d ∈ r.head?, d.isDigit = false := by
  have hclosing : [',', ']', '\n'].all (fun d => !d.isDigit) = true := by decide
  obtain ⟨d, hd, s, rfl⟩ := h
  rintro _ ⟨⟩
  simpa using List.all_eq_true.mp hclosing d hd

theorem spacedDigits_append (hds : ∀ d ∈ ds, d.isDigit = true) (hr : Closing r) :
    spacedDigits Char.isDigit (ds ++ r) = (ds, r) := by
  induction ds with
  | nil =>
    have hdigit := hr.isDigit
    obtain ⟨d, hd, s, rfl⟩ := hr
    have hline : d ≠ '_' := by
      rintro rfl
      exact absurd hd (by decide)
    rw [List.nil_append, spacedDigits]
    · simp [hdigit d rfl]
    · intro e t h
      exact absurd h hline
  | cons d ds ih =>
    obtain ⟨hd, hds⟩ := List.forall_mem_cons.mp hds
    rw [List.cons_append, spacedDigits]
    · simp [hd, ih hds]
    · intro e t h
      exact absurd h (ne_of_isDigit hd (by decide))

/-- Behind digits and what closes a value, no other character stands. -/
theorem char_append (hds : ∀ d ∈ ds, d.isDigit = true) (hr : Closing r) (hc : c.isDigit = false)
    (hclosing : c ∉ [',', ']', '\n']) : char c (ds ++ r) = none := by
  cases ds with
  | nil =>
    have hne := hr.ne hclosing
    obtain ⟨d, -, s, rfl⟩ := hr
    exact if_neg (Ne.symm (hne d rfl))
  | cons d ds => exact if_neg (ne_of_isDigit (hds d List.mem_cons_self) hc).symm

theorem exists_of_fixed {count low high n : Nat} {s : List Char} (hds : ∀ d ∈ ds, d.isDigit = true)
    (hr : Closing r) (h : fixed count low high (ds ++ r) = some (n, s)) :
    ∃ es, (∀ d ∈ es, d.isDigit = true) ∧ s = es ++ r := by
  simp only [fixed] at h
  split_ifs at h with hc
  obtain ⟨-, rfl⟩ := Prod.mk.inj (Option.some.inj h)
  refine ⟨ds.drop count, fun d hd => hds d (List.mem_of_mem_drop hd), ?_⟩
  -- what closes the value is no digit, so it is not among those that were read
  have hle : count ≤ ds.length := by
    by_contra hlt
    have hdigit := hr.isDigit
    obtain ⟨d, -, t, rfl⟩ := hr
    have hmem : d ∈ (ds ++ d :: t).take count := by
      rw [List.take_append, List.take_of_length_le (by omega)]
      obtain ⟨m, hm⟩ := Nat.exists_eq_succ_of_ne_zero (n := count - ds.length) (by omega)
      simp [hm]
    exact absurd (List.all_eq_true.mp hc.2.1 d hmem) (by simp [hdigit d rfl])
  exact List.drop_append_of_le_length hle

theorem moment_digits (hds : ∀ d ∈ ds, d.isDigit = true) (hr : Closing r) :
    moment (ds ++ r) = none := by
  have hdate : date (ds ++ r) = none := by
    unfold date
    cases h : fixed 4 0 9999 (ds ++ r) with
    | none => rfl
    | some p =>
      obtain ⟨es, hes, hp⟩ := exists_of_fixed (n := p.1) (s := p.2) hds hr h
      simp [hp, char_append hes hr (c := '-') (by decide) (by decide)]
  have htime : time (ds ++ r) = none := by
    unfold time
    cases h : fixed 2 0 23 (ds ++ r) with
    | none => rfl
    | some p =>
      obtain ⟨es, hes, hp⟩ := exists_of_fixed (n := p.1) (s := p.2) hds hr h
      simp [hp, char_append hes hr (c := ':') (by decide) (by decide)]
  rw [moment, hdate, htime]
  rfl

end Digits

/-! ## Numbers -/

section Numbers

variable {n : Nat} {r : List Char}

theorem exists_toDigits_eq (n : Nat) :
    ∃ d ds, Nat.toDigits 10 n = d :: ds ∧ d.isDigit = true ∧ (d = '0' → ds = []) := by
  by_cases hn : n = 0
  · exact ⟨'0', [], by rw [hn]; exact Nat.toDigits_zero 10, by decide, fun _ => rfl⟩
  · obtain ⟨d, ds, h⟩ := List.exists_cons_of_ne_nil (Nat.toDigits_ne_nil (n := n) (b := 10))
    exact ⟨d, ds, h, isDigit_toDigits n d (by rw [h]; exact List.mem_cons_self),
      fun h0 => absurd h0 (head?_toDigits_ne hn d (by rw [h]; rfl))⟩

theorem decimalDigits_toDigits (hr : Closing r) :
    decimalDigits (Nat.toDigits 10 n ++ r) = some (Nat.toDigits 10 n, r) := by
  obtain ⟨d, ds, h, hd, h0⟩ := exists_toDigits_eq n
  have hds : ∀ e ∈ ds, e.isDigit = true := fun e he =>
    isDigit_toDigits n e (by rw [h]; exact List.mem_cons_of_mem d he)
  rw [h]
  by_cases hz : d = '0'
  · rw [hz, h0 hz]
    rfl
  · rw [List.cons_append, decimalDigits]
    · rw [digitsOf, if_pos hd, spacedDigits_append hds hr]
    · intro t ht
      exact hz (List.cons.inj ht).1

theorem sign_toDigits : sign (Nat.toDigits 10 n ++ r) = (false, Nat.toDigits 10 n ++ r) := by
  obtain ⟨d, ds, h, hd, -⟩ := exists_toDigits_eq n
  rw [h, List.cons_append, sign]
  · exact fun _ ht => ne_of_isDigit hd (by decide) (List.cons.inj ht).1
  · exact fun _ ht => ne_of_isDigit hd (by decide) (List.cons.inj ht).1

/-- Neither a fraction nor an exponent follows what closes a value. -/
theorem real_digits (hr : Closing r) : real (Nat.toDigits 10 n ++ r) = none := by
  have hfraction : fraction r = none := by
    have hne := hr.ne (c := '.') (by decide)
    obtain ⟨c, -, s, rfl⟩ := hr
    rw [fraction]
    exact fun _ ht => hne c rfl (List.cons.inj ht).1
  have hexponent : exponent r = none := by
    have hlower := hr.ne (c := 'e') (by decide)
    have hupper := hr.ne (c := 'E') (by decide)
    obtain ⟨c, -, s, rfl⟩ := hr
    simp [exponent, hlower c rfl, hupper c rfl]
  simp only [real, sign_toDigits, decimalDigits_toDigits hr, hfraction, hexponent]

theorem integer_toDigits (hn : n ≤ Value.maxInteger) (hr : Closing r) :
    integer (Nat.toDigits 10 n ++ r) = some (.integer n, r) := by
  have hread : (decimalDigits (Nat.toDigits 10 n ++ r)).bind (fun p =>
      (ranged false (ofDigits p.1)).bind fun v => some (v, p.2)) = some (.integer n, r) := by
    rw [decimalDigits_toDigits hr, Option.bind_some, ofDigits_toDigits, ranged, if_neg (by decide),
      if_pos hn]
    rfl
  -- a zero is alone, so no letter for another base follows it
  have hbase (b : Char) (hb : b ∉ [',', ']', '\n']) (s : List Char) :
      Nat.toDigits 10 n ++ r ≠ '0' :: b :: s := by
    obtain ⟨d, ds, h, -, h0⟩ := exists_toDigits_eq n
    intro heq
    rw [h] at heq
    obtain ⟨hd, heq⟩ := List.cons.inj heq
    rw [h0 hd] at heq
    obtain rfl : r = b :: s := heq
    exact hr.ne hb b rfl rfl
  rw [integer]
  · rw [sign_toDigits]
    exact hread
  · exact hbase 'x' (by decide)
  · exact hbase 'o' (by decide)
  · exact hbase 'b' (by decide)

end Numbers

/-! ## Scalars -/

/-- Characters that stand before a value or between the items of a list, or open a list or a table:
no scalar starts with one. -/
def outside : List Char := [' ', '\t', '\n', '\r', '#', '[', ']', '{']

section Scalars

variable {v : Value} {r : List Char}

theorem toList_natural (n : Nat) :
    (valueText (.integer (n : Int))).toList = Nat.toDigits 10 n := by
  have h : valueText (.integer (n : Int)) = toString n := rfl
  rw [h, Nat.toString_eq_ofList_toDigits, String.toList_ofList]

theorem toList_text (s : String) : (valueText (.text s)).toList = textOf s.toList :=
  String.toList_ofList

theorem exists_textOf_eq (cs : List Char) : ∃ q ∈ ['"', '\''], ∃ t, textOf cs = q :: t := by
  unfold textOf
  cases textForm cs
  · exact ⟨'"', by decide, _, rfl⟩
  · exact ⟨'\'', by decide, _, rfl⟩
  · exact ⟨'"', by decide, _, rfl⟩
  · exact ⟨'\'', by decide, _, rfl⟩

theorem exists_scalar_eq (h : Scalar v) : ∃ c ∉ outside, ∃ t, (valueText v).toList = c :: t := by
  cases h with
  | bool b =>
    cases b
    · exact ⟨'f', by decide, _, rfl⟩
    · exact ⟨'t', by decide, _, rfl⟩
  | @natural n =>
    obtain ⟨d, ds, h, hd, -⟩ := exists_toDigits_eq n
    have houtside : outside.all (fun c => !c.isDigit) = true := by decide
    refine ⟨d, fun hc => ?_, ds, (toList_natural n).trans h⟩
    exact absurd (List.all_eq_true.mp houtside d hc) (by simp [hd])
  | text s =>
    obtain ⟨q, hq, t, h⟩ := exists_textOf_eq s.toList
    refine ⟨q, ?_, t, (toList_text s).trans h⟩
    rcases List.mem_pair.mp hq with rfl | rfl
    · decide
    · decide

theorem scalar_toDigits {n : Nat} (hn : n ≤ Value.maxInteger) (hr : Closing r) :
    scalar (Nat.toDigits 10 n ++ r) = some (.integer n, r) := by
  have hread : (moment (Nat.toDigits 10 n ++ r) <|> real (Nat.toDigits 10 n ++ r) <|>
      integer (Nat.toDigits 10 n ++ r)) = some (.integer n, r) := by
    rw [moment_digits (isDigit_toDigits n) hr, real_digits hr, integer_toDigits hn hr]
    rfl
  obtain ⟨d, ds, h, hd, -⟩ := exists_toDigits_eq n
  rw [h] at hread ⊢
  rw [List.cons_append, scalar]
  · rw [if_pos (by simp [startsNumber, hd])]
    exact hread
  all_goals exact ne_of_isDigit hd (by decide)

theorem scalar_valueText (h : Scalar v) (hr : Closing r) :
    scalar ((valueText v).toList ++ r) = some (v, r) := by
  cases h with
  | bool b => cases b <;> rfl
  | natural hn =>
    rw [toList_natural]
    exact scalar_toDigits hn hr
  | text s =>
    have hread : string (textOf s.toList ++ r) = some (s.toList, r) := string_textOf hr
    obtain ⟨q, hq, t, h⟩ := exists_textOf_eq s.toList
    have hquoted : scalar (q :: (t ++ r)) = (string (q :: (t ++ r))).map fun p =>
        (.text (String.ofList p.1), p.2) := by
      rcases List.mem_pair.mp hq with rfl | rfl
      · rfl
      · rfl
    rw [toList_text, h, List.cons_append, hquoted, ← List.cons_append, ← h, hread]
    simp

end Scalars

/-! ## Lists -/

section Lists

variable {v : Value} {vs : List Value} {c : Char} {s r : List Char} {fuel depth : Nat}

theorem ne_of_not_outside {d : Char} (h : c ∉ outside) (hd : d ∈ outside) : c ≠ d := by
  rintro rfl
  exact h hd

theorem skipBlanks_cons (h : isBlank c = false) : skipBlanks (c :: s) = c :: s :=
  List.dropWhile_cons_of_neg (by simp [h])

theorem skipGaps_break : skipGaps (fuel + 1) ('\n' :: s) = skipGaps fuel s := rfl

theorem skipGaps_blank : skipGaps (fuel + 1) (' ' :: s) = skipGaps (fuel + 1) s := rfl

theorem skipGaps_cons (fuel : Nat) (hb : isBlank c = false) (hn : c ≠ '\n') (hr : c ≠ '\r')
    (hc : c ≠ '#') : skipGaps fuel (c :: s) = c :: s := by
  cases fuel with
  | zero => rfl
  | succ fuel =>
    have hcomment : skipComment (c :: s) = c :: s := by
      unfold skipComment
      split <;> simp_all
    simp only [skipGaps, skipBlanks_cons hb, hcomment, afterBreak_of_ne hn hr]

theorem skipGaps_of_not_outside (fuel : Nat) (h : c ∉ outside) :
    skipGaps fuel (c :: s) = c :: s := by
  refine skipGaps_cons fuel ?_ (ne_of_not_outside h (by decide)) (ne_of_not_outside h (by decide))
    (ne_of_not_outside h (by decide))
  simp [isBlank, ne_of_not_outside h (d := ' ') (by decide),
    ne_of_not_outside h (d := '\t') (by decide)]

theorem value_scalar (h : Scalar v) (hr : Closing r) :
    value (fuel + 1) depth ((valueText v).toList ++ r) = some (v, r) := by
  have hread := scalar_valueText h hr
  obtain ⟨c, hc, t, ht⟩ := exists_scalar_eq h
  rw [ht, List.cons_append] at hread ⊢
  rw [value]
  · exact hread
  · exact fun _ heq => ne_of_not_outside hc (by decide) (List.cons.inj heq).1
  · exact fun _ heq => ne_of_not_outside hc (by decide) (List.cons.inj heq).1

/-- An item with a comma behind it, and the items behind the comma. -/
theorem items_comma (h : Scalar v) :
    items (fuel + 2) depth ((valueText v).toList ++ ',' :: r) =
      (items (fuel + 1) depth (skipGaps (fuel + 1) r)).map fun (vs, r) => (v :: vs, r) := by
  have hread : value (fuel + 1) depth _ = _ :=
    value_scalar h (r := ',' :: r) ⟨',', by decide, r, rfl⟩
  have hgap : skipGaps (fuel + 1) (',' :: r) = ',' :: r :=
    skipGaps_cons _ (by decide) (by decide) (by decide) (by decide)
  obtain ⟨c, hc, t, ht⟩ := exists_scalar_eq h
  rw [ht, List.cons_append] at hread ⊢
  rw [items]
  · rw [hread]
    simp only [hgap]
  · exact fun _ heq => ne_of_not_outside hc (by decide) (List.cons.inj heq).1

/-- The last item without a comma. -/
theorem items_single (h : Scalar v) :
    items (fuel + 2) depth ((valueText v).toList ++ ']' :: r) = some ([v], r) := by
  have hread : value (fuel + 1) depth _ = _ :=
    value_scalar h (r := ']' :: r) ⟨']', by decide, r, rfl⟩
  have hgap : skipGaps (fuel + 1) (']' :: r) = ']' :: r :=
    skipGaps_cons _ (by decide) (by decide) (by decide) (by decide)
  obtain ⟨c, hc, t, ht⟩ := exists_scalar_eq h
  rw [ht, List.cons_append] at hread ⊢
  rw [items]
  · rw [hread]
    simp only [hgap]
  · exact fun _ heq => ne_of_not_outside hc (by decide) (List.cons.inj heq).1

/-- Items on lines of their own. -/
def itemLines (vs : List Value) : List Char :=
  vs.flatMap fun v => ' ' :: ' ' :: ' ' :: ' ' :: ((valueText v).toList ++ [',', '\n'])

theorem items_itemLines (h : ∀ v ∈ vs, Scalar v) (hf : vs.length + 1 < fuel) :
    items fuel depth (skipGaps fuel ('\n' :: (itemLines vs ++ ']' :: r))) = some (vs, r) := by
  induction vs generalizing fuel with
  | nil =>
    obtain ⟨fuel, rfl⟩ := Nat.exists_eq_add_of_le' (m := 2) (n := fuel) hf
    rfl
  | cons v vs ih =>
    obtain ⟨hv, hvs⟩ := List.forall_mem_cons.mp h
    obtain ⟨fuel, rfl⟩ := Nat.exists_eq_add_of_le' (m := 2) (n := fuel) (by omega)
    have htext : itemLines (v :: vs) ++ ']' :: r = ' ' :: ' ' :: ' ' :: ' ' ::
        ((valueText v).toList ++ ',' :: '\n' :: (itemLines vs ++ ']' :: r)) := by simp [itemLines]
    have hgap : skipGaps (fuel + 1) ((valueText v).toList ++
        ',' :: '\n' :: (itemLines vs ++ ']' :: r)) =
          (valueText v).toList ++ ',' :: '\n' :: (itemLines vs ++ ']' :: r) := by
      obtain ⟨c, hc, t, ht⟩ := exists_scalar_eq hv
      rw [ht]
      exact skipGaps_of_not_outside _ hc
    rw [htext, skipGaps_break, skipGaps_blank, skipGaps_blank, skipGaps_blank, skipGaps_blank, hgap,
      items_comma hv, ih hvs (by simpa using hf)]
    rfl

theorem itemTexts_eq (vs : List Value) : itemTexts vs = vs.map valueText := by
  induction vs with
  | nil => rfl
  | cons v vs ih => rw [itemTexts, ih, List.map_cons]

theorem length_le_itemLines (vs : List Value) : vs.length ≤ (itemLines vs).length := by
  induction vs with
  | nil => exact Nat.le_refl 0
  | cons v vs ih =>
    simp only [itemLines, List.flatMap_cons, List.length_append, List.length_cons] at ih ⊢
    omega

theorem toList_listText (v w : Value) (vs : List Value) :
    (valueText (.list (v :: w :: vs))).toList =
      '[' :: '\n' :: (itemLines (v :: w :: vs) ++ [']']) := by
  rw [valueText, itemTexts_eq, List.map_cons, List.map_cons, listText]
  · simp [itemLines, String.toList_join, List.flatMap_map]
  · exact List.cons_ne_nil _ _
  · exact fun _ heq => List.cons_ne_nil _ _ (List.cons.inj heq).2

/-- A list on one line, or each item on a line of its own. -/
theorem value_list (h : ∀ v ∈ vs, Scalar v)
    (hf : (valueText (.list vs)).toList.length < fuel) :
    value fuel (depth + 1) ((valueText (.list vs)).toList ++ r) = some (.list vs, r) := by
  match vs with
  | [] =>
    obtain ⟨fuel, rfl⟩ := Nat.exists_eq_add_of_le' (m := 2) (n := fuel) (Nat.le_of_lt hf)
    rfl
  | [v] =>
    have htext : (valueText (.list [v])).toList = '[' :: ((valueText v).toList ++ [']']) := by
      simp [valueText, itemTexts, listText]
    have hv := h v List.mem_cons_self
    obtain ⟨c, hc, t, ht⟩ := exists_scalar_eq hv
    have hgap (k : Nat) : skipGaps k ((valueText v).toList ++ ']' :: r) =
        (valueText v).toList ++ ']' :: r := by
      rw [ht]
      exact skipGaps_of_not_outside k hc
    rw [htext, ht] at hf
    obtain ⟨fuel, rfl⟩ := Nat.exists_eq_add_of_le' (m := 3) (n := fuel) (by simp at hf; omega)
    rw [htext, List.cons_append, List.append_assoc, value, if_neg (by omega)]
    exact congrArg _ ((congrArg _ (hgap _)).trans (items_single hv))
  | v :: w :: vs =>
    have hlength := length_le_itemLines (v :: w :: vs)
    rw [toList_listText] at hf
    obtain ⟨fuel, rfl⟩ := Nat.exists_eq_succ_of_ne_zero (Nat.ne_zero_of_lt hf)
    have hitems : items fuel depth
        (skipGaps fuel ('\n' :: (itemLines (v :: w :: vs) ++ ']' :: r))) = some (v :: w :: vs, r) :=
      items_itemLines h (by simp at hf; omega)
    rw [toList_listText]
    simp [value, hitems]

/-- A value is read up to what closes it. -/
theorem value_valueText (h : Inline v) (hr : Closing r)
    (hf : (valueText v).toList.length < fuel) :
    value fuel (depth + 1) ((valueText v).toList ++ r) = some (v, r) := by
  cases h with
  | scalar h =>
    obtain ⟨fuel, rfl⟩ := Nat.exists_eq_succ_of_ne_zero (Nat.ne_zero_of_lt hf)
    exact value_scalar h hr
  | list h => exact value_list h hf

end Lists

end ApiSurface.Toml
