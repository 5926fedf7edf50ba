import ApiSurface.Proofs.Client.Code
import ApiSurface.Proofs.Client.Layout
import ApiSurface.Proofs.Text.Flush

/-!
# Code at the left margin

Spaces at the starts of lines are no part of what comments and literals begin and end with. A text
and the same text at the margin are therefore divided at the same characters, and up to such spaces
they have the same code.

* `blockEnd_flush`, `literalEnd_flush`, `afterNonCode_flush`: where comments and literals end;
* `flush_codeFrom`, `flushed_code`: the code of a text at the margin;
* `flushed_render`: lines are the same at the margin for any number of blanks a level;
* **`mentions_code_congr`**: code mentions the same names at any indentation.
-/

namespace ApiSurface.Client

open ApiSurface.Text

variable {start start' : Bool} {c q : Char} {cs r : List Char} {manyLines : Bool}

/-! ## Ends of comments and literals -/

theorem suffix_of_blockEnd (h : blockEnd cs = some r) : r <:+ cs := by
  fun_induction blockEnd cs with
  | case1 => cases h
  | case2 r' =>
    cases h
    exact List.suffix_append ['*', '/'] r
  | case3 c cs _ ih => exact (ih h).trans (List.suffix_cons c cs)

theorem suffix_of_literalEnd (h : literalEnd q manyLines cs = some r) : r <:+ cs := by
  fun_induction literalEnd q manyLines cs with
  | case1 => cases h
  | case2 c cs ih => exact (ih h).trans (List.suffix_append ['\\', c] cs)
  | case3 => cases h
  | case4 cs =>
    cases h
    exact List.suffix_cons _ r
  | case5 => cases h
  | case6 c cs _ _ _ _ ih => exact (ih h).trans (List.suffix_cons c cs)

/-- What follows a comment or literal is the end of what follows its first character. -/
theorem suffix_of_afterNonCode (h : afterNonCode (c :: cs) = some r) : r <:+ cs := by
  revert h
  generalize htext : c :: cs = text
  fun_cases afterNonCode text with
  | case1 r' =>
    obtain ⟨-, rfl⟩ := List.cons.inj htext
    exact fun h => (suffix_of_blockEnd h).trans (List.suffix_cons '*' r')
  | case2 r' =>
    obtain ⟨-, rfl⟩ := List.cons.inj htext
    rintro ⟨⟩
    exact (List.dropWhile_suffix _).trans (List.suffix_cons '/' r')
  | case3 | case4 | case5 =>
    obtain ⟨-, rfl⟩ := List.cons.inj htext
    exact suffix_of_literalEnd
  | case6 => rintro ⟨⟩

/-! ## Ends at the margin -/

theorem blockEnd_flush (start : Bool) (cs : List Char) :
    blockEnd (flush start cs) = (blockEnd cs).map (flush false) := by
  fun_induction blockEnd cs generalizing start with
  | case1 =>
    rw [flush_nil]
    rfl
  | case2 r =>
    rw [flush_cons_of_ne (by decide)]
    rfl
  | case3 c cs hopen ih =>
    rw [flush]
    split_ifs
    · exact ih true
    · rw [blockEnd.eq_3, ih]
      rintro r rfl hslash
      obtain ⟨r', rfl, -⟩ := (@flush_eq_append_iff _ r ['/'] (by decide)).mp hslash
      exact hopen r' rfl rfl

/-- The equations of `literalEnd` tell a backslash from other characters by what follows it. -/
theorem ne_backslash (hpair : ∀ d r, c = '\\' → cs = d :: r → False)
    (hsingle : c = '\\' → cs = [] → False) : c ≠ '\\' := by
  intro hc
  cases cs with
  | nil => exact hsingle hc rfl
  | cons d r => exact hpair d r hc rfl

theorem literalEnd_flush (hspace : q ≠ ' ') (hbreak : q ≠ '\n') (start : Bool) (cs : List Char) :
    literalEnd q manyLines (flush start cs) = (literalEnd q manyLines cs).map (flush false) := by
  fun_induction literalEnd q manyLines cs generalizing start with
  | case1 =>
    rw [flush_nil]
    rfl
  | case2 c cs ih =>
    rw [flush_cons_of_ne (by decide), beq_false_of_ne (by decide), flush_false_cons, literalEnd]
    exact ih _
  | case3 =>
    rw [flush_cons_of_ne (by decide)]
    rfl
  | case4 cs hpair hsingle =>
    rw [flush_cons_of_ne hspace, beq_false_of_ne hbreak, literalEnd_cons (ne_backslash hpair hsingle),
      if_pos rfl]
    rfl
  | case5 c cs hpair hsingle hq hline =>
    rw [flush_cons_of_ne (hline.1 ▸ by decide), literalEnd_cons (ne_backslash hpair hsingle),
      if_neg hq, if_pos hline]
    rfl
  | case6 c cs hpair hsingle hq hline ih =>
    rw [flush]
    split_ifs
    · exact ih true
    · rw [literalEnd_cons (ne_backslash hpair hsingle), if_neg hq, if_neg hline, ih]

theorem dropWhile_flush (cs : List Char) :
    (flush false cs).dropWhile (· != '\n') = flush false (cs.dropWhile (· != '\n')) := by
  induction cs with
  | nil => rfl
  | cons c cs ih =>
    by_cases hc : c = '\n'
    · subst hc
      rfl
    · rw [flush_false_cons, beq_false_of_ne hc, List.dropWhile_cons_of_pos (by simpa using hc),
        List.dropWhile_cons_of_pos (by simpa using hc), ih]

/-- Where a comment or literal ends at the margin. -/
theorem afterNonCode_flush (text : List Char) :
    afterNonCode (flush false text) = (afterNonCode text).map (flush false) := by
  fun_cases afterNonCode text with
  | case1 r => exact blockEnd_flush false r
  | case2 r => exact congrArg some (dropWhile_flush r)
  | case3 | case4 | case5 => exact literalEnd_flush (by decide) (by decide) false _
  | case6 _ hblock hline hdouble hsingle hticks =>
    -- what starts at the margin starts in the text, since no mark has a line break in it
    have hopen {front r : List Char} (hfront : '\n' ∉ front) (h : flush false text = front ++ r) :
        ∃ r', text = front ++ r' :=
      have ⟨r', heq, _⟩ := (flush_eq_append_iff hfront).mp h
      ⟨r', heq⟩
    refine afterNonCode.eq_6 _ (fun r h => ?_) (fun r h => ?_) (fun r h => ?_) (fun r h => ?_)
      (fun r h => ?_)
    · obtain ⟨r', heq⟩ := @hopen ['/', '*'] r (by decide) h
      exact hblock r' heq
    · obtain ⟨r', heq⟩ := @hopen ['/', '/'] r (by decide) h
      exact hline r' heq
    · obtain ⟨r', heq⟩ := @hopen ['"'] r (by decide) h
      exact hdouble r' heq
    · obtain ⟨r', heq⟩ := @hopen ['\''] r (by decide) h
      exact hsingle r' heq
    · obtain ⟨r', heq⟩ := @hopen ['`'] r (by decide) h
      exact hticks r' heq

/-! ## Code at the margin -/

theorem codeFrom_cons_of_some (h : afterNonCode (c :: cs) = some r) :
    codeFrom 0 (c :: cs) = ' ' :: codeFrom 0 r := by
  obtain ⟨front, rfl⟩ := suffix_of_afterNonCode h
  exact codeFrom_of_afterNonCode h

/-- Scanning commutes with going to the margin. A space in the code may stand for a comment, so
that the code of a text at the margin need not be at the margin itself. -/
theorem flush_codeFrom (h : start = true → start' = true) (cs : List Char) :
    flush start' (codeFrom 0 (flush start cs)) = flush start' (codeFrom 0 cs) := by
  induction hn : cs.length using Nat.strong_induction_on generalizing cs start start' with
  | _ n ih =>
    subst hn
    cases cs with
    | nil => rw [flush_nil]
    | cons c cs =>
      have hcs : cs.length < (c :: cs).length := Nat.lt_succ_self _
      rw [flush]
      split_ifs with hspace
      · -- a space at the start of a line is dropped before the scan or after it
        obtain ⟨rfl, hc⟩ := Bool.and_eq_true_iff.mp hspace
        obtain rfl := beq_iff_eq.mp hc
        obtain rfl := h rfl
        rw [codeFrom_cons_of_none rfl, flush_space]
        exact ih _ hcs id cs rfl
      · have hafter := afterNonCode_flush (c :: cs)
        rw [flush_false_cons] at hafter
        cases hc : afterNonCode (c :: cs) with
        | none =>
          rw [hc] at hafter
          rw [codeFrom_cons_of_none hc, codeFrom_cons_of_none hafter, flush, flush]
          split_ifs
          · exact ih _ hcs (fun _ => rfl) cs rfl
          · rw [ih _ hcs id cs rfl]
        | some r =>
          -- no comment and no literal ends at the start of a line
          rw [hc] at hafter
          have hr : r.length < (c :: cs).length :=
            Nat.lt_succ_of_le (suffix_of_afterNonCode hc).length_le
          have hrest (b : Bool) : flush b (codeFrom 0 (flush false r)) = flush b (codeFrom 0 r) :=
            ih _ hr (absurd · Bool.false_ne_true) r rfl
          rw [codeFrom_cons_of_some hc, codeFrom_cons_of_some hafter]
          cases start' with
          | false => rw [flush_false_cons, flush_false_cons, hrest]
          | true => rw [flush_space, flush_space, hrest]

/-- At the margin, the code of a text is that of the text at the margin. -/
theorem flushed_code (s : String) : flushed (code (flushed s)) = flushed (code s) := by
  unfold flushed code
  rw [String.toList_ofList, String.toList_ofList, String.toList_ofList, flush_codeFrom id]

/-- **Code mentions the same names at any indentation**, if they have no line breaks. -/
theorem mentions_code_congr {s t n : String} (hn : OneLine n) (h : flushed s = flushed t) :
    mentions (code s) n = mentions (code t) n := by
  calc mentions (code s) n
      = mentions (flushed (code (flushed s))) n := by rw [flushed_code, mentions_flushed hn]
    _ = mentions (flushed (code (flushed t))) n := by rw [h]
    _ = mentions (code t) n := by rw [flushed_code, mentions_flushed hn]

/-! ## Lines at the margin -/

theorem flushed_spaces_append (n : Nat) (s : String) : flushed (spaces n ++ s) = flushed s := by
  unfold flushed spaces
  rw [String.toList_append, String.toList_ofList, flush_replicate_append]

/-- At the margin, lines are the same for any number of blanks a level. -/
theorem flushed_render (i j : Nat) (ls : List Line) :
    flushed (render i ls) = flushed (render j ls) := by
  induction ls with
  | nil => rfl
  | cons l ls ih =>
    obtain ⟨m, hi⟩ := exists_render_eq i l
    obtain ⟨n, hj⟩ := exists_render_eq j l
    rw [render_cons, render_cons, hi, hj, flushed_append_break, flushed_append_break,
      flushed_spaces_append, flushed_spaces_append, ih]

end ApiSurface.Client
