import ApiSurface.Client.Import
import ApiSurface.Proofs.Text.Mention
import Mathlib.Data.List.Chain

/-!
# Texts whose comments and literals end in them

Scanning joined texts for code is scanning one after the other, as long as each text ends all
comments and literals that it starts.

* `Closed`: the code of a text does not depend on what follows it;
* `isBare`, `Bare`: text that starts no comment and no literal is its own code;
* `CommentText`, `closed_comment`: a comment is a blank, if its text does not end it;
* `Escaped`, `closed_quoted`: a literal is a blank, if its text does not end it;
* `closed_intercalate`, `wordOf_intercalate`: texts with a separator between each two.
-/

namespace ApiSurface.Client

open ApiSurface.Text

variable {n s t out : String}

/-! ## Code of joined texts -/

/-- All comments and literals that a text starts end in it. -/
def Closed (s : String) : Prop := ∀ t, code (s ++ t) = code s ++ code t

theorem code_empty : code "" = "" := rfl

theorem closed_empty : Closed "" := by
  intro t
  rw [code_empty, String.empty_append, String.empty_append]

theorem code_eq_of_forall (h : ∀ t, code (s ++ t) = out ++ code t) : code s = out := by
  have hs := h ""
  rwa [code_empty, String.append_empty, String.append_empty] at hs

theorem closed_of_forall (h : ∀ t, code (s ++ t) = out ++ code t) : Closed s := by
  intro t
  rw [code_eq_of_forall h]
  exact h t

theorem Closed.append (hs : Closed s) (ht : Closed t) : Closed (s ++ t) := by
  intro u
  rw [String.append_assoc, hs, ht, hs, String.append_assoc]

/-! ## Bare text -/

/-- The characters that comments and literals start with, and the one that escapes others. -/
def marks : List Char := ['/', '\\', '"', '\'', '`']

/-- A character that neither starts nor escapes anything. -/
def isBare (c : Char) : Bool := !marks.contains c

/-- A text of such characters. -/
def Bare (s : String) : Prop := s.toList.all isBare = true

instance (s : String) : Decidable (Bare s) := inferInstanceAs (Decidable (_ = _))

/-- Characters of a kind that has none of these are bare. -/
theorem isBare_of {p : Char → Bool} (hp : marks.any p = false) {c : Char} (hc : p c = true) :
    isBare c = true := by
  unfold isBare
  rw [Bool.not_eq_true', Bool.eq_false_iff]
  intro hmem
  exact List.any_eq_false.mp hp c (List.contains_iff_mem.mp hmem) hc

theorem Bare.append (hs : Bare s) (ht : Bare t) : Bare (s ++ t) := by
  unfold Bare at hs ht ⊢
  rw [String.toList_append, List.all_append, hs, ht]
  rfl

theorem afterNonCode_eq_none {c : Char} (h : isBare c = true) (cs : List Char) :
    afterNonCode (c :: cs) = none := by
  unfold afterNonCode
  split <;> simp_all [isBare, marks]

theorem codeFrom_cons_of_none {c : Char} {cs : List Char} (h : afterNonCode (c :: cs) = none) :
    codeFrom 0 (c :: cs) = c :: codeFrom 0 cs := by
  rw [codeFrom, h]

theorem codeFrom_append_of_bare {cs : List Char} (h : cs.all isBare = true) (r : List Char) :
    codeFrom 0 (cs ++ r) = cs ++ codeFrom 0 r := by
  induction cs with
  | nil => rfl
  | cons c cs ih =>
    rw [List.all_cons, Bool.and_eq_true] at h
    rw [List.cons_append, codeFrom_cons_of_none (afterNonCode_eq_none h.1 _), List.cons_append,
      ih h.2]

theorem code_append_of_bare (h : Bare s) (t : String) : code (s ++ t) = s ++ code t := by
  unfold code
  rw [String.toList_append, codeFrom_append_of_bare h, String.ofList_append, String.ofList_toList]

theorem Bare.closed (h : Bare s) : Closed s := closed_of_forall (code_append_of_bare h)

theorem Bare.code_eq (h : Bare s) : code s = s := code_eq_of_forall (code_append_of_bare h)

variable {y z : String}

theorem Closed.between (hy : Bare y) (hs : Closed s) (hz : Bare z) : Closed (y ++ s ++ z) :=
  (hy.closed.append hs).append hz.closed

/-! ## Comments and literals -/

theorem codeFrom_eq_drop (k : Nat) (cs : List Char) : codeFrom k cs = codeFrom 0 (cs.drop k) := by
  induction k generalizing cs with
  | zero => rfl
  | succ k ih =>
    cases cs with
    | nil => rfl
    | cons c cs =>
      rw [codeFrom, ih]
      rfl

theorem codeFrom_of_afterNonCode {c : Char} {cs r : List Char}
    (h : afterNonCode (c :: (cs ++ r)) = some r) :
    codeFrom 0 (c :: (cs ++ r)) = ' ' :: codeFrom 0 r := by
  have hskip : (cs ++ r).length - r.length = cs.length := by
    rw [List.length_append, Nat.add_sub_cancel]
  rw [codeFrom, h]
  dsimp only
  rw [hskip, codeFrom_eq_drop, List.drop_left]

/-- A text that is one comment or literal is a blank. -/
theorem code_append_of_afterNonCode {c : Char} {cs : List Char} (hs : s.toList = c :: cs)
    (h : ∀ r, afterNonCode (c :: (cs ++ r)) = some r) (t : String) :
    code (s ++ t) = " " ++ code t := by
  have hblank : " " = String.ofList [' '] := rfl
  unfold code
  rw [String.toList_append, hs, List.cons_append, codeFrom_of_afterNonCode (h _), hblank,
    ← String.ofList_append]
  rfl

/-- A text without `*/`. -/
def NoCommentEnd (s : String) : Prop := s.toList.IsChain fun a b => a = '*' → b ≠ '/'

instance (s : String) : Decidable (NoCommentEnd s) := inferInstanceAs (Decidable (List.IsChain _ _))

/-- A text that does not end the comment it stands in, whatever stands before it. -/
def CommentText (s : String) : Prop := NoCommentEnd s ∧ s.toList.head? ≠ some '/'

/-- Bare texts have no `/` at all. -/
theorem Bare.commentText (h : Bare s) : CommentText s := by
  have hslash : ∀ c ∈ s.toList, c ≠ '/' := by
    rintro c hc rfl
    exact absurd (List.all_eq_true.mp h _ hc) (by decide)
  refine ⟨List.Pairwise.isChain ?_, fun hhead => hslash _ (List.mem_of_head? hhead) rfl⟩
  exact List.pairwise_of_forall_mem_list fun _ _ b hb _ => hslash b hb

theorem commentText_blank_append (h : NoCommentEnd s) : CommentText (" " ++ s) := by
  have hblank : (" " ++ s).toList = ' ' :: s.toList := String.toList_append
  unfold CommentText NoCommentEnd
  rw [hblank]
  constructor
  · refine List.isChain_cons.mpr ⟨fun _ _ hstar => ?_, h⟩
    cases hstar
  · exact fun hslash => absurd (Option.some.inj hslash) (by decide)

theorem CommentText.append (hs : CommentText s) (ht : CommentText t) : CommentText (s ++ t) := by
  unfold CommentText NoCommentEnd
  rw [String.toList_append]
  constructor
  · refine List.isChain_append.mpr ⟨hs.1, ht.1, fun a _ b hb _ hslash => ?_⟩
    rw [hslash] at hb
    exact ht.2 hb
  · rw [List.head?_append]
    cases hhead : s.toList.head? with
    | none => exact ht.2
    | some c => exact fun hslash => hs.2 (hhead.trans hslash)

theorem blockEnd_append {cs : List Char} (h : cs.IsChain fun a b => a = '*' → b ≠ '/')
    (r : List Char) : blockEnd (cs ++ '*' :: '/' :: r) = some r := by
  induction cs with
  | nil => rfl
  | cons c cs ih =>
    have hopen : ∀ r', c = '*' → cs ++ '*' :: '/' :: r = '/' :: r' → False := by
      intro r' hstar hslash
      cases cs with
      | nil => cases hslash
      | cons d cs =>
        obtain ⟨hd, -⟩ := List.cons.inj hslash
        exact (List.isChain_cons_cons.mp h).1 hstar hd
    rw [List.cons_append, blockEnd.eq_3 _ _ hopen]
    exact ih h.tail

theorem code_comment (hs : CommentText s) (t : String) :
    code ("/*" ++ s ++ "*/" ++ t) = " " ++ code t := by
  refine @code_append_of_afterNonCode _ '/' ('*' :: (s.toList ++ ['*', '/'])) ?_ (fun r => ?_) t
  · simp
  · rw [List.cons_append, List.append_assoc]
    exact blockEnd_append hs.1 r

/-- **A comment ends where it should**, if its text does not end it. -/
theorem closed_comment (hs : CommentText s) : Closed ("/*" ++ s ++ "*/") :=
  closed_of_forall (code_comment hs)

/-- Characters that do not end the literal they stand in. -/
inductive Escaped (q : Char) (manyLines : Bool) : List Char → Prop
  | nil : Escaped q manyLines []
  | char {c : Char} {cs : List Char} (hq : c ≠ q) (hescape : c ≠ '\\')
    (hline : c = '\n' → manyLines = true) (h : Escaped q manyLines cs) :
    Escaped q manyLines (c :: cs)
  | pair {c : Char} {cs : List Char} (h : Escaped q manyLines cs) :
    Escaped q manyLines ('\\' :: c :: cs)

theorem literalEnd_cons {q c : Char} {manyLines : Bool} (hc : c ≠ '\\') (cs : List Char) :
    literalEnd q manyLines (c :: cs) =
      if c = q then some cs
      else if c = '\n' ∧ !manyLines then none
      else literalEnd q manyLines cs :=
  literalEnd.eq_4 q manyLines c cs (fun _ _ h => absurd h hc) fun h => absurd h hc

theorem literalEnd_append {q : Char} {manyLines : Bool} (hq : q ≠ '\\') {cs : List Char}
    (h : Escaped q manyLines cs) (r : List Char) :
    literalEnd q manyLines (cs ++ q :: r) = some r := by
  induction h with
  | nil => rw [List.nil_append, literalEnd_cons hq, if_pos rfl]
  | @char c cs hcq hescape hline _ ih =>
    rw [List.cons_append, literalEnd_cons hescape, if_neg hcq, if_neg, ih]
    rintro ⟨hc, hmany⟩
    rw [hline hc] at hmany
    cases hmany
  | pair _ ih => exact ih

theorem escaped_escape {q : Char} {manyLines : Bool} {cs : List Char}
    (h : manyLines = false → '\n' ∉ cs) : Escaped q manyLines (escape q cs) := by
  induction cs with
  | nil => exact .nil
  | cons c cs ih =>
    have htail := ih fun hm hmem => h hm (List.mem_cons_of_mem c hmem)
    rw [escape]
    split_ifs with hc
    · exact .pair htail
    · rw [not_or] at hc
      refine .char hc.2 hc.1 (fun hbreak => ?_) htail
      by_contra hmany
      exact h (Bool.eq_false_iff.mpr hmany) (hbreak ▸ List.mem_cons_self)

/-- A text without line breaks. -/
def OneLine (s : String) : Prop := '\n' ∉ s.toList

instance (s : String) : Decidable (OneLine s) := inferInstanceAs (Decidable (¬ _))

theorem code_quoted {q : Char} (hq : q = '"' ∨ q = '\'') (hs : OneLine s) (t : String) :
    code (quoted q s ++ t) = " " ++ code t := by
  refine code_append_of_afterNonCode (String.toList_ofList) (fun r => ?_) t
  have hescaped : Escaped q false (escape q s.toList) := escaped_escape fun _ => hs
  rw [List.append_assoc]
  rcases hq with rfl | rfl
  · exact literalEnd_append (by decide) hescaped r
  · exact literalEnd_append (by decide) hescaped r

/-- **A literal ends where it should**, if its text has no line break. -/
theorem closed_quoted {q : Char} (hq : q = '"' ∨ q = '\'') (hs : OneLine s) :
    Closed (quoted q s) :=
  closed_of_forall (code_quoted hq hs)

/-! ## Words of code -/

theorem opensOutside_code_append (hs : Closed s) (h : opensOutside (code s) = true) :
    opensOutside (code (s ++ t)) = true := by
  rw [hs]
  exact opensOutside_append h

theorem endsOutside_code_append (hs : Closed s) (h : endsOutside (code t) = true) :
    endsOutside (code (s ++ t)) = true := by
  rw [hs]
  exact endsOutside_append h

theorem wordOf_code_append (hs : Closed s) (hn : WordOf n (code s))
    (h : opensOutside (code t) = true) : WordOf n (code (s ++ t)) := by
  rw [hs]
  exact hn.append h

theorem wordOf_code_prepend (hs : Closed s) (hn : WordOf n (code t))
    (h : endsOutside (code s) = true) : WordOf n (code (s ++ t)) := by
  rw [hs]
  exact hn.prepend h

theorem wordOf_code_between (hy : Bare y) (hends : endsOutside y = true) (hs : Closed s)
    (hn : WordOf n (code s)) (hopens : opensOutside (code z) = true) :
    WordOf n (code (y ++ s ++ z)) := by
  rw [hy.closed.append hs, hy.closed, hy.code_eq]
  exact (hn.prepend hends).append hopens

/-! ## Separators -/

theorem closed_intercalate {ss : List String} (ht : Closed t) (hs : ∀ s ∈ ss, Closed s) :
    Closed (t.intercalate ss) := by
  induction ss with
  | nil => exact closed_empty
  | cons s ss ih =>
    have hrest := ih fun u hu => hs u (List.mem_cons_of_mem s hu)
    cases ss with
    | nil => exact hs s List.mem_cons_self
    | cons u ss =>
      rw [String.intercalate_cons_cons]
      exact ((hs s List.mem_cons_self).append ht).append hrest

/-- A word of a text is a word of several texts that separators hold apart. -/
theorem wordOf_intercalate {ss : List String} (ht : Closed t)
    (hopens : opensOutside (code t) = true) (hends : endsOutside (code t) = true)
    (hs : ∀ s ∈ ss, Closed s) (hmem : s ∈ ss) (hn : WordOf n (code s)) :
    WordOf n (code (t.intercalate ss)) := by
  induction ss with
  | nil => exact absurd hmem List.not_mem_nil
  | cons u ss ih =>
    cases ss with
    | nil =>
      rw [List.mem_singleton.mp hmem] at hn
      exact hn
    | cons v ss =>
      have hu : Closed u := hs u List.mem_cons_self
      rw [String.intercalate_cons_cons]
      rcases List.mem_cons.mp hmem with rfl | hmem
      · rw [String.append_assoc]
        exact wordOf_code_append hu hn (opensOutside_code_append ht hopens)
      · exact wordOf_code_prepend (hu.append ht)
          (ih (fun w hw => hs w (List.mem_cons_of_mem u hw)) hmem)
          (endsOutside_code_append hu hends)

end ApiSurface.Client
