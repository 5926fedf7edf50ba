import ApiSurface.Proofs.Toml.Value

/-!
# Written statements are read back

* `Statement.text`, `Statement.Plain`: a statement on its line, and those that are read back;
* `dottedKey_pathText`: the keys of a path;
* `statement_text`: one statement;
* `Laid`, `Laid.statements`: statements on lines of their own, blank lines between them.
-/

namespace ApiSurface.Toml

/-! ## Keys -/

/-- Keys that are written without quotes. -/
def Bare (k : String) : Prop := k.toList ≠ [] ∧ k.toList.all isBare = true

instance (k : String) : Decidable (Bare k) := inferInstanceAs (Decidable (_ ∧ _))

section Keys

variable {k : String} {ks : List String} {c : Char} {r : List Char}

theorem Bare.exists_eq (h : Bare k) : ∃ c t, k.toList = c :: t ∧ isBare c = true := by
  obtain ⟨c, t, ht⟩ := List.exists_cons_of_ne_nil h.1
  exact ⟨c, t, ht, List.all_eq_true.mp h.2 c (by rw [ht]; exact List.mem_cons_self)⟩

theorem ne_of_isBare {d : Char} (h : isBare c = true) (hd : isBare d = false) : c ≠ d := by
  rintro rfl
  exact absurd h (by simp [hd])

theorem isBlank_of_isBare (h : isBare c = true) : isBlank c = false := by
  simp [isBlank, ne_of_isBare h (d := ' ') (by decide), ne_of_isBare h (d := '\t') (by decide)]

theorem keyPart_append (h : Bare k) (hr : ∀ d ∈ r.head?, isBare d = false) :
    keyPart (k.toList ++ r) = some (k, r) := by
  have hstop : r.takeWhile isBare = [] ∧ r.dropWhile isBare = r := by
    cases r with
    | nil => exact ⟨rfl, rfl⟩
    | cons d r => simp [hr d rfl]
  have htake : (k.toList ++ r).takeWhile isBare = k.toList := by
    rw [List.takeWhile_append_of_pos (List.all_eq_true.mp h.2), hstop.1, List.append_nil]
  have hdrop : (k.toList ++ r).dropWhile isBare = r := by
    rw [List.dropWhile_append_of_pos (List.all_eq_true.mp h.2), hstop.2]
  obtain ⟨c, t, ht, hc⟩ := h.exists_eq
  rw [keyPart]
  · rw [htake, hdrop, if_neg (by simp [ht]), String.ofList_toList]
  · intro s heq
    rw [ht] at heq
    exact ne_of_isBare hc (by decide) (List.cons.inj heq).1
  · intro s heq
    rw [ht] at heq
    exact ne_of_isBare hc (by decide) (List.cons.inj heq).1

theorem pathText_cons_cons (k l : String) (ks : List String) :
    (pathText (k :: l :: ks)).toList = k.toList ++ '.' :: (pathText (l :: ks)).toList := by
  simp [pathText, String.toList_intercalate]

theorem toList_pathText_singleton (k : String) : (pathText [k]).toList = k.toList := by
  simp [pathText]

theorem exists_pathText_eq (hk : Bare k) (ks : List String) :
    ∃ c t, (pathText (k :: ks)).toList = c :: t ∧ isBare c = true := by
  obtain ⟨c, t, ht, hc⟩ := hk.exists_eq
  cases ks with
  | nil => exact ⟨c, t, by rw [toList_pathText_singleton, ht], hc⟩
  | cons l ks => exact ⟨c, _, by rw [pathText_cons_cons, ht]; rfl, hc⟩

/-- The keys of a path, up to what is neither part of a key nor a point. -/
theorem dottedKey_pathText {most : Nat} (hks : ∀ l ∈ k :: ks, Bare l) (hm : ks.length < most)
    (hr : ∀ d ∈ r.head?, isBare d = false) (hdot : ∀ d ∈ (skipBlanks r).head?, d ≠ '.') :
    dottedKey most ((pathText (k :: ks)).toList ++ r) = some (k :: ks, skipBlanks r) := by
  induction ks generalizing k most with
  | nil =>
    obtain ⟨most, rfl⟩ := Nat.exists_eq_succ_of_ne_zero (Nat.ne_zero_of_lt hm)
    have hk := hks k List.mem_cons_self
    obtain ⟨c, t, ht, hc⟩ := hk.exists_eq
    have hskip : skipBlanks (k.toList ++ r) = k.toList ++ r := by
      rw [ht]
      exact skipBlanks_cons (isBlank_of_isBare hc)
    rw [toList_pathText_singleton, dottedKey, hskip, keyPart_append hk hr]
    simp only [Option.bind_eq_bind, Option.bind_some]
    split
    · next heq => exact absurd rfl (hdot '.' (by rw [heq]; rfl))
    · rfl
  | cons l ks ih =>
    obtain ⟨most, rfl⟩ := Nat.exists_eq_succ_of_ne_zero (Nat.ne_zero_of_lt hm)
    obtain ⟨hk, hks⟩ := List.forall_mem_cons.mp hks
    obtain ⟨c, t, ht, hc⟩ := hk.exists_eq
    have hskip (s : List Char) : skipBlanks (k.toList ++ s) = k.toList ++ s := by
      rw [ht]
      exact skipBlanks_cons (isBlank_of_isBare hc)
    have hpart (s : List Char) : keyPart (k.toList ++ '.' :: s) = some (k, '.' :: s) :=
      keyPart_append hk fun d hd => by cases hd; decide
    have hpoint (s : List Char) : skipBlanks ('.' :: s) = '.' :: s := skipBlanks_cons (by decide)
    rw [pathText_cons_cons, List.append_assoc, List.cons_append, dottedKey, hskip, hpart,
      Option.bind_eq_bind, Option.bind_some]
    simp only [hpoint, ih hks (Nat.lt_of_succ_lt_succ hm)]
    rfl

end Keys

/-- A path with a key at its end, all of them bare and not too many. -/
structure Reachable (path : List String) (k : String) : Prop where
  bare : ∀ l ∈ path ++ [k], Bare l
  length : path.length < depthLimit

section Paths

variable {path : List String} {k : String} {r : List Char}

theorem keyPath_pathText (h : Reachable path k) (hr : ∀ d ∈ r.head?, isBare d = false)
    (hdot : ∀ d ∈ (skipBlanks r).head?, d ≠ '.') :
    keyPath ((pathText (path ++ [k])).toList ++ r) = some (path, k, skipBlanks r) := by
  have hkeys : dottedKey depthLimit ((pathText (path ++ [k])).toList ++ r) =
      some (path ++ [k], skipBlanks r) := by
    have hbare := h.bare
    have hlength : (path ++ [k]).length ≤ depthLimit := by
      rw [List.length_append]
      exact h.length
    obtain ⟨l, ls, hl⟩ := List.exists_cons_of_ne_nil (l := path ++ [k]) (by simp)
    rw [hl] at hbare hlength ⊢
    exact dottedKey_pathText hbare hlength hr hdot
  simp [keyPath, hkeys]

theorem Reachable.exists_eq (h : Reachable path k) :
    ∃ c t, (pathText (path ++ [k])).toList = c :: t ∧ isBare c = true := by
  have hbare := h.bare
  obtain ⟨l, ls, hl⟩ := List.exists_cons_of_ne_nil (l := path ++ [k]) (by simp)
  rw [hl] at hbare ⊢
  exact exists_pathText_eq (hbare l List.mem_cons_self) ls

end Paths

/-! ## Statements -/

/-- A statement as it is written, without the end of its line. -/
def Statement.text : Statement → List Char
  | .table path k => '[' :: ((pathText (path ++ [k])).toList ++ [']'])
  | .next path k => '[' :: '[' :: ((pathText (path ++ [k])).toList ++ [']', ']'])
  | .assign path k v =>
    (pathText (path ++ [k])).toList ++ ' ' :: '=' :: ' ' :: (valueText v).toList

/-- Statements with bare keys and with values that stand on a line. -/
inductive Statement.Plain : Statement → Prop
  | table {path : List String} {k : String} (h : Reachable path k) : Plain (.table path k)
  | next {path : List String} {k : String} (h : Reachable path k) : Plain (.next path k)
  | assign {path : List String} {k : String} {v : Value} (h : Reachable path k) (hv : Inline v) :
    Plain (.assign path k v)

section Statements

variable {s : Statement} {path : List String} {k : String} {v : Value} {r : List Char}

theorem isBlank_of_inline (h : Inline v) :
    ∃ c t, (valueText v).toList = c :: t ∧ isBlank c = false := by
  cases h with
  | scalar h =>
    obtain ⟨c, hc, t, ht⟩ := exists_scalar_eq h
    refine ⟨c, t, ht, ?_⟩
    simp [isBlank, ne_of_not_outside hc (d := ' ') (by decide),
      ne_of_not_outside hc (d := '\t') (by decide)]
  | @list vs h =>
    rcases vs with _ | ⟨v, _ | ⟨w, vs⟩⟩
    · exact ⟨'[', [']'], rfl, by decide⟩
    · exact ⟨'[', _, by simp [valueText, itemTexts, listText]; rfl, by decide⟩
    · exact ⟨'[', _, toList_listText v w vs, by decide⟩

theorem assignment_text (h : Reachable path k) (hv : Inline v) :
    assignment ((Statement.assign path k v).text ++ '\n' :: r) =
      some (.assign path k v, '\n' :: r) := by
  obtain ⟨c, t, ht, hc⟩ := isBlank_of_inline hv
  have hskip : skipBlanks (' ' :: ((valueText v).toList ++ '\n' :: r)) =
      (valueText v).toList ++ '\n' :: r := by
    rw [ht]
    exact skipBlanks_cons hc
  have hread : value ((' ' :: ((valueText v).toList ++ '\n' :: r)).length + 1) depthLimit
      ((valueText v).toList ++ '\n' :: r) = some (v, '\n' :: r) :=
    value_valueText hv ⟨'\n', by decide, r, rfl⟩ (by simp; omega)
  have hkey := keyPath_pathText h (r := ' ' :: '=' :: ' ' :: ((valueText v).toList ++ '\n' :: r))
    (fun d hd => by cases hd; decide) (fun d hd => by cases hd; decide)
  have hequals (s : List Char) : skipBlanks (' ' :: '=' :: s) = '=' :: s := rfl
  rw [hequals] at hkey
  have htext : (Statement.assign path k v).text ++ '\n' :: r = (pathText (path ++ [k])).toList ++
      ' ' :: '=' :: ' ' :: ((valueText v).toList ++ '\n' :: r) := by simp [Statement.text]
  rw [htext, assignment, hkey]
  simp only [hskip, hread, Option.map_some]

/-- A statement is read up to the end of its line. -/
theorem statement_text (h : s.Plain) : statement (s.text ++ '\n' :: r) = some (s, '\n' :: r) := by
  cases h with
  | @table path k h =>
    have hkey := keyPath_pathText h (r := ']' :: '\n' :: r)
      (fun d hd => by cases hd; decide) (fun d hd => by cases hd; decide)
    obtain ⟨c, t, ht, hc⟩ := h.exists_eq
    have htext : (Statement.table path k).text ++ '\n' :: r =
        '[' :: ((pathText (path ++ [k])).toList ++ ']' :: '\n' :: r) := by simp [Statement.text]
    rw [htext, statement, header]
    · rw [hkey]
      rfl
    · intro s heq
      rw [ht] at heq
      exact ne_of_isBare hc (by decide) (List.cons.inj heq).1
  | @next path k h =>
    have hkey := keyPath_pathText h (r := ']' :: ']' :: '\n' :: r)
      (fun d hd => by cases hd; decide) (fun d hd => by cases hd; decide)
    have htext : (Statement.next path k).text ++ '\n' :: r =
        '[' :: '[' :: ((pathText (path ++ [k])).toList ++ ']' :: ']' :: '\n' :: r) := by
      simp [Statement.text]
    rw [htext, statement, header, hkey]
    rfl
  | assign h hv =>
    obtain ⟨c, t, ht, hc⟩ := h.exists_eq
    rw [statement]
    · exact assignment_text h hv
    · intro s heq
      rw [Statement.text, ht] at heq
      exact ne_of_isBare hc (by decide) (List.cons.inj heq).1

theorem Statement.Plain.exists_eq (h : s.Plain) : ∃ c t, s.text = c :: t ∧
    isBlank c = false ∧ c ≠ '\n' ∧ c ≠ '\r' ∧ c ≠ '#' ∧ c ≠ '\ufeff' := by
  cases h with
  | table h => exact ⟨'[', _, rfl, by decide⟩
  | next h => exact ⟨'[', _, rfl, by decide⟩
  | assign h hv =>
    obtain ⟨c, t, ht, hc⟩ := h.exists_eq
    exact ⟨c, _, by rw [Statement.text, ht]; rfl, isBlank_of_isBare hc, ne_of_isBare hc (by decide),
      ne_of_isBare hc (by decide), ne_of_isBare hc (by decide), ne_of_isBare hc (by decide)⟩

end Statements

/-! ## Lines -/

/-- A text of statements, each on a line of its own, with blank lines anywhere. -/
inductive Laid : List Char → List Statement → Prop
  | nil : Laid [] []
  | gap {cs : List Char} {ss : List Statement} (h : Laid cs ss) : Laid ('\n' :: cs) ss
  | line {s : Statement} {cs : List Char} {ss : List Statement} (hs : s.Plain) (h : Laid cs ss) :
    Laid (s.text ++ '\n' :: cs) (s :: ss)

namespace Laid

variable {cs ds : List Char} {ss ts : List Statement}

theorem append (h : Laid cs ss) (h' : Laid ds ts) : Laid (cs ++ ds) (ss ++ ts) := by
  induction h with
  | nil => exact h'
  | gap _ ih => exact ih.gap
  | line hs _ ih =>
    rw [List.append_assoc]
    exact ih.line hs

theorem flatMap {α : Type} {l : List α} {f : α → List Char} {g : α → List Statement}
    (h : ∀ a ∈ l, Laid (f a) (g a)) : Laid (l.flatMap f) (l.flatMap g) := by
  induction l with
  | nil => exact nil
  | cons a l ih =>
    obtain ⟨ha, hl⟩ := List.forall_mem_cons.mp h
    exact ha.append (ih hl)

theorem length_le (h : Laid cs ss) : ss.length ≤ cs.length := by
  induction h with
  | nil => exact Nat.le_refl 0
  | gap _ ih => exact Nat.le_succ_of_le ih
  | line _ _ ih =>
    rw [List.length_append, List.length_cons, List.length_cons]
    omega

theorem withoutMark (h : Laid cs ss) : withoutMark cs = cs := by
  cases h with
  | nil => rfl
  | gap _ => rfl
  | line hs _ =>
    obtain ⟨c, t, ht, -, -, -, -, hmark⟩ := hs.exists_eq
    rw [ht, List.cons_append, Toml.withoutMark]
    exact fun _ heq => hmark (List.cons.inj heq).1

theorem statements (h : Laid cs ss) {fuel : Nat} (hf : ss.length < fuel) :
    statements fuel cs = some ss := by
  induction h generalizing fuel with
  | nil =>
    obtain ⟨fuel, rfl⟩ := Nat.exists_eq_succ_of_ne_zero (Nat.ne_zero_of_lt hf)
    rfl
  | @gap cs ss h ih =>
    obtain ⟨fuel, rfl⟩ := Nat.exists_eq_succ_of_ne_zero (Nat.ne_zero_of_lt hf)
    exact ih hf
  | @line s cs ss hs h ih =>
    obtain ⟨fuel, rfl⟩ := Nat.exists_eq_succ_of_ne_zero (Nat.ne_zero_of_lt hf)
    have hread := statement_text hs (r := cs)
    have hrest := ih (Nat.lt_of_succ_lt_succ hf)
    obtain ⟨c, t, ht, hb, hn, hr, hc, -⟩ := hs.exists_eq
    rw [ht, List.cons_append] at hread ⊢
    have hskip : skipGaps (c :: (t ++ '\n' :: cs)).length (c :: (t ++ '\n' :: cs)) =
      c :: (t ++ '\n' :: cs) := skipGaps_cons _ hb hn hr hc
    simp only [Toml.statements, hskip]
    split
    · next heq => exact absurd heq (List.cons_ne_nil _ _)
    · next heq => exact absurd (List.cons.inj heq).1 hc
    · have hend : lineEnd ('\n' :: cs) = some cs := rfl
      simp [hread, hend, hrest]

end Laid

end ApiSurface.Toml
