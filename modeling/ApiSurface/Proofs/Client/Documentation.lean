import ApiSurface.Proofs.Client.CodeLines
import Mathlib.Data.List.TakeWhile

/-!
# Documentation comments

The text of a documentation comment stands between its first and its last mark, unless it holds the
mark that ends a comment.

* `IsDocComment`: a text is one documentation comment behind its indentation;
* `noCommentEnd_append`: where the ends of comments can stand in joined texts;
* `noCommentEnd_lines_iff`, `noCommentEnd_trim_iff`: neither lines nor trimming hide one;
* `isDocComment_render_iff`: the lines of a comment;
* **`isDocComment_docLines`**: documentation is one comment exactly if it does not end it;
* `not_isDocComment_glob`: a pattern of files that ends the comment it is mentioned in.
-/

namespace ApiSurface.Client

open ApiSurface.Text

variable {s t : String}

/-- A text is one documentation comment: behind its indentation it opens one, and the first end of a
comment in it is followed by nothing but its last line break. -/
structure IsDocComment (t : String) : Prop where
  opens : ['/', '*', '*'] <+: t.toList.dropWhile (· = ' ')
  ends : ∃ front, t = front ++ "*/\n" ∧ NoCommentEnd (front ++ "*")

/-! ## Ends of comments -/

/-- Joined texts end a comment where one of them does, unless they do so together. -/
theorem noCommentEnd_append (h : s.toList.getLast? ≠ some '*' ∨ t.toList.head? ≠ some '/') :
    NoCommentEnd (s ++ t) ↔ NoCommentEnd s ∧ NoCommentEnd t := by
  unfold NoCommentEnd
  rw [String.toList_append, List.isChain_append]
  refine ⟨fun hall => ⟨hall.1, hall.2.1⟩, fun ⟨hs, ht⟩ => ⟨hs, ht, ?_⟩⟩
  rintro a ha b hb rfl rfl
  exact h.elim (fun hs => hs ha) fun ht => ht hb

/-- A text of blanks ends no comment, and neither end of it takes part in one. -/
theorem noCommentEnd_of_blank (h : ∀ c ∈ s.toList, isBlank c = true) : NoCommentEnd s := by
  refine List.Pairwise.isChain ?_
  refine List.pairwise_of_forall_mem_list fun a ha _ _ hstar => ?_
  rw [hstar] at ha
  exact absurd (h _ ha) (by decide)

theorem getLast?_ne_of_blank (h : ∀ c ∈ s.toList, isBlank c = true) :
    s.toList.getLast? ≠ some '*' := fun hlast =>
  absurd (h _ (List.mem_of_getLast? hlast)) (by decide)

theorem head?_ne_of_blank (h : ∀ c ∈ s.toList, isBlank c = true) :
    s.toList.head? ≠ some '/' := fun hhead =>
  absurd (h _ (List.mem_of_head? hhead)) (by decide)

/-! ## Trimming -/

theorem exists_trimEnd_append (s : String) :
    ∃ back, s = trimEnd s ++ back ∧ ∀ c ∈ back.toList, isBlank c = true := by
  refine ⟨String.ofList (s.toList.reverse.takeWhile isBlank).reverse, ?_, fun c hc => ?_⟩
  · rw [← String.toList_inj, String.toList_append, trimEnd, dropEnd, String.toList_ofList,
      String.toList_ofList, ← List.reverse_append, List.takeWhile_append_dropWhile,
      List.reverse_reverse]
  · rw [String.toList_ofList, List.mem_reverse] at hc
    exact List.all_eq_true.mp List.all_takeWhile c hc

theorem exists_append_trimStart (s : String) :
    ∃ front, s = front ++ trimStart s ∧ ∀ c ∈ front.toList, isBlank c = true := by
  refine ⟨String.ofList (s.toList.takeWhile isBlank), ?_, fun c hc => ?_⟩
  · rw [← String.toList_inj, String.toList_append, trimStart, String.toList_ofList,
      String.toList_ofList, List.takeWhile_append_dropWhile]
  · rw [String.toList_ofList] at hc
    exact List.all_eq_true.mp List.all_takeWhile c hc

theorem trim_eq (s : String) : trim s = trimEnd (trimStart s) := by
  rw [trim, trimEnd, trimStart, String.toList_ofList]

theorem noCommentEnd_trimEnd_iff (s : String) : NoCommentEnd (trimEnd s) ↔ NoCommentEnd s := by
  obtain ⟨back, heq, hback⟩ := exists_trimEnd_append s
  conv_rhs => rw [heq]
  rw [noCommentEnd_append (Or.inr (head?_ne_of_blank hback)),
    and_iff_left (noCommentEnd_of_blank hback)]

theorem noCommentEnd_trim_iff (s : String) : NoCommentEnd (trim s) ↔ NoCommentEnd s := by
  obtain ⟨front, heq, hfront⟩ := exists_append_trimStart s
  rw [trim_eq, noCommentEnd_trimEnd_iff]
  conv_rhs => rw [heq]
  rw [noCommentEnd_append (Or.inl (getLast?_ne_of_blank hfront)),
    and_iff_right (noCommentEnd_of_blank hfront)]

theorem trim_eq_empty_iff : trim s = "" ↔ ∀ c ∈ s.toList, isBlank c = true := by
  constructor
  · intro h c hc
    obtain ⟨front, hstart, hfront⟩ := exists_append_trimStart s
    obtain ⟨back, hend, hback⟩ := exists_trimEnd_append (trimStart s)
    rw [hstart, hend, ← trim_eq, h, String.empty_append, String.toList_append,
      List.mem_append] at hc
    exact hc.elim (hfront c) (hback c)
  · intro h
    rw [trim, List.dropWhile_eq_nil_iff.mpr h]
    rfl

/-! ## Lines -/

/-- A slash at the front of a text stands at the front of its first line. -/
theorem splitLines_slash (cs : List Char) : ∃ l ls, splitLines ('/' :: cs) = ('/' :: l) :: ls := by
  rw [splitLines]
  · cases splitLines cs with
    | nil => exact ⟨_, _, rfl⟩
    | cons l ls => exact ⟨_, _, rfl⟩
  · simp
  · simp

/-- An end of a comment stands in one of the lines of a text. -/
theorem isChain_of_splitLines {cs : List Char}
    (h : ∀ l ∈ splitLines cs, l.IsChain fun a b => a = '*' → b ≠ '/') :
    cs.IsChain fun a b => a = '*' → b ≠ '/' := by
  fun_induction splitLines cs with
  | case1 => exact .nil
  | case2 r ih =>
    have hr := ih (List.forall_mem_cons.mp h).2
    exact List.isChain_cons.mpr ⟨fun _ _ hstar => absurd hstar (by decide), hr⟩
  | case3 r ih =>
    have hr := ih (List.forall_mem_cons.mp h).2
    exact List.isChain_cons_cons.mpr ⟨fun hstar => absurd hstar (by decide),
      List.isChain_cons.mpr ⟨fun _ _ hstar => absurd hstar (by decide), hr⟩⟩
  | case4 c r _ _ ih =>
    have hr : ∀ l ∈ splitLines r, l.IsChain fun a b => a = '*' → b ≠ '/' := by
      cases hr : splitLines r with
      | nil => exact fun l hl => absurd hl List.not_mem_nil
      | cons first rest =>
        rw [hr] at h
        obtain ⟨hfirst, hrest⟩ := List.forall_mem_cons.mp h
        exact List.forall_mem_cons.mpr ⟨hfirst.tail, hrest⟩
    refine List.isChain_cons.mpr ⟨fun d hd hstar hslash => ?_, ih hr⟩
    subst hslash
    obtain ⟨r', rfl⟩ := List.head?_eq_some_iff.mp hd
    obtain ⟨l, ls, hl⟩ := splitLines_slash r'
    rw [hl] at h
    exact (List.isChain_cons_cons.mp (List.forall_mem_cons.mp h).1).1 hstar rfl

theorem noCommentEnd_lines_iff : (∀ l ∈ lines s, NoCommentEnd l) ↔ NoCommentEnd s := by
  refine ⟨fun h => isChain_of_splitLines fun l hl => ?_, fun h l hl => h.of_mem_lines hl⟩
  have hline := h _ (List.mem_map_of_mem hl)
  rwa [NoCommentEnd, String.toList_ofList] at hline

theorem noCommentEnd_docLine_iff (s : String) :
    NoCommentEnd (docLine s).text ↔ NoCommentEnd s := by
  rw [← noCommentEnd_trimEnd_iff s]
  unfold docLine
  dsimp only
  split_ifs with hempty
  · rw [String.isEmpty_iff.mp hempty]
    exact iff_of_true (by decide) (by decide)
  · exact (noCommentEnd_append (Or.inl (by decide))).trans (and_iff_right (by decide))

/-! ## Comments -/

theorem blank_spaces (n : Nat) : ∀ c ∈ (spaces n).toList, isBlank c = true := by
  unfold spaces
  rw [String.toList_ofList]
  exact fun c hc => List.eq_of_mem_replicate hc ▸ by decide

theorem noCommentEnd_spaces_append (n : Nat) (s : String) :
    NoCommentEnd (spaces n ++ s) ↔ NoCommentEnd s := by
  rw [noCommentEnd_append (Or.inl (getLast?_ne_of_blank (blank_spaces n))),
    and_iff_right (noCommentEnd_of_blank (blank_spaces n))]

/-- Lines end a comment where one of them does, and what follows them on its own. -/
theorem noCommentEnd_render_append (indent : Nat) (ls : List Line) (s : String) :
    NoCommentEnd (render indent ls ++ s) ↔
      (∀ l ∈ ls, NoCommentEnd l.text) ∧ NoCommentEnd s := by
  induction ls with
  | nil => simp
  | cons l ls ih =>
    obtain ⟨n, hl⟩ := exists_render_eq indent l
    have hbreak : (spaces n ++ l.text ++ "\n").toList.getLast? ≠ some '*' := by simp
    rw [render_cons, hl, String.append_assoc, noCommentEnd_append (Or.inl hbreak), ih,
      String.append_assoc, noCommentEnd_spaces_append,
      noCommentEnd_append (Or.inr (by decide)), List.forall_mem_cons]
    simp [show NoCommentEnd "\n" by decide, and_assoc]

theorem dropWhile_spaces_append (n : Nat) (s : String) :
    (spaces n ++ s).toList.dropWhile (· = ' ') = s.toList.dropWhile (· = ' ') := by
  have hall : ∀ c ∈ (spaces n).toList, decide (c = ' ') = true := by
    unfold spaces
    rw [String.toList_ofList]
    exact fun c hc => decide_eq_true (List.eq_of_mem_replicate hc)
  rw [String.toList_append, List.dropWhile_append_of_pos hall]

/-- Lines open a comment where the first of them does. -/
theorem opens_render (indent : Nat) {l : Line} (ls : List Line)
    (h : ['/', '*', '*'] <+: l.text.toList) :
    ['/', '*', '*'] <+: (render indent (l :: ls)).toList.dropWhile (· = ' ') := by
  obtain ⟨n, hrender⟩ := exists_render_eq indent l
  obtain ⟨rest, hrest⟩ := h
  rw [render_cons, hrender, String.append_assoc, String.append_assoc,
    dropWhile_spaces_append, String.toList_append, ← hrest]
  exact ⟨_, rfl⟩

/-- **The lines of a comment** are one comment if no line ends it before the last one does. -/
theorem isDocComment_render_iff (indent : Nat) {ls : List Line} {last : Line} {closing : String}
    (hopens : ∀ l ∈ (ls ++ [last]).head?, ['/', '*', '*'] <+: l.text.toList)
    (hlast : last.text = closing ++ "*/") :
    IsDocComment (render indent (ls ++ [last])) ↔
      (∀ l ∈ ls, NoCommentEnd l.text) ∧ NoCommentEnd (closing ++ "*") := by
  obtain ⟨n, hrender⟩ := exists_render_eq indent last
  have htext : render indent (ls ++ [last]) =
      render indent ls ++ (spaces n ++ closing) ++ "*/\n" := by
    have hend : "*/\n" = "*/" ++ "\n" := rfl
    rw [render_append, render_singleton, hrender, hlast, hend]
    simp only [String.append_assoc]
  have hclosing : NoCommentEnd (render indent ls ++ (spaces n ++ closing) ++ "*") ↔
      (∀ l ∈ ls, NoCommentEnd l.text) ∧ NoCommentEnd (closing ++ "*") := by
    rw [String.append_assoc, noCommentEnd_render_append, String.append_assoc,
      noCommentEnd_spaces_append]
  rw [← hclosing]
  constructor
  · rintro ⟨-, front, hfront, hends⟩
    rw [htext] at hfront
    rwa [(String.append_left_inj _).mp hfront]
  · intro hends
    refine ⟨?_, _, htext, hends⟩
    obtain ⟨first, rest, hfirst⟩ :=
      List.exists_cons_of_ne_nil (List.append_ne_nil_of_right_ne_nil ls (List.cons_ne_nil last []))
    rw [hfirst] at hopens ⊢
    exact opens_render indent rest (hopens first rfl)

theorem nonBlank?_eq_none_iff {docs : Option String} :
    nonBlank? docs = none ↔ ∀ d ∈ docs, ∀ c ∈ d.toList, isBlank c = true := by
  cases docs with
  | none => simp [nonBlank?]
  | some d => simp [nonBlank?, Option.filter, ← trim_eq_empty_iff]

/-- Documentation that is not blank is one comment exactly if it does not end it. -/
theorem isDocComment_iff_of_nonBlank {docs : Option String} {d : String} (h : nonBlank? docs = some d)
    (indent : Nat) {ls : List Line} (hls : ls.map (·.text) = (docLines docs).map (·.text)) :
    IsDocComment (render indent ls) ↔ NoCommentEnd d := by
  unfold docLines at hls
  rw [h] at hls
  dsimp only at hls
  split_ifs at hls
  · rw [List.map_append, List.map_cons, List.map_eq_append_iff] at hls
    obtain ⟨front, back, rfl, hfront, hback⟩ := hls
    obtain ⟨first, middle, rfl, hfirst, hmiddle⟩ := List.map_eq_cons_iff.mp hfront
    obtain ⟨last, rfl, hlast⟩ := List.map_eq_singleton_iff.mp hback
    have hopens : ∀ l ∈ (first :: middle ++ [last]).head?, ['/', '*', '*'] <+: l.text.toList := by
      rintro l ⟨⟩
      rw [hfirst]
      exact ⟨[], rfl⟩
    have hclosing : last.text = " " ++ "*/" := hlast
    have hinner : (∀ l ∈ middle, NoCommentEnd l.text) ↔ NoCommentEnd d := by
      have htexts : (∀ l ∈ middle, NoCommentEnd l.text) ↔
          ∀ t ∈ middle.map (·.text), NoCommentEnd t := List.forall_mem_map.symm
      rw [htexts, hmiddle, List.map_map, List.forall_mem_map, ← noCommentEnd_lines_iff]
      exact forall₂_congr fun t _ => noCommentEnd_docLine_iff t
    rw [isDocComment_render_iff indent hopens hclosing, List.forall_mem_cons, hinner, hfirst]
    exact ⟨fun hall => hall.1.2, fun hd => ⟨⟨by decide, hd⟩, by decide⟩⟩
  · obtain ⟨last, rfl, hlast⟩ := List.map_eq_singleton_iff.mp hls
    have hopens : ∀ l ∈ ([] ++ [last]).head?, ['/', '*', '*'] <+: l.text.toList := by
      rintro l ⟨⟩
      have htext : last.text = "/** " ++ (d ++ " */") := by
        rw [hlast, ← String.append_assoc]
        rfl
      rw [htext, String.toList_append]
      exact ⟨_, rfl⟩
    have hclosing : last.text = "/** " ++ d ++ " " ++ "*/" := by
      have hend : " */" = " " ++ "*/" := rfl
      rw [String.append_assoc, ← hend]
      exact hlast
    have hinner : NoCommentEnd ("/** " ++ d ++ " " ++ "*") ↔ NoCommentEnd d := by
      rw [String.append_assoc, String.append_assoc, noCommentEnd_append (Or.inl (by decide)),
        noCommentEnd_append (Or.inr (by decide))]
      exact ⟨fun hall => hall.2.1, fun hd => ⟨by decide, hd, by decide⟩⟩
    have hiff := isDocComment_render_iff indent hopens hclosing
    rw [hinner] at hiff
    exact hiff.trans (and_iff_right fun l hl => absurd hl List.not_mem_nil)

/-- **Documentation is one comment exactly if it does not end it.** Of documentation that is missing
or blank nothing is written. -/
theorem isDocComment_docLines (indent depth : Nat) (docs : Option String) :
    let text := render indent (deeper^[depth] (docLines docs))
    (text = "" ↔ ∀ d ∈ docs, ∀ c ∈ d.toList, isBlank c = true) ∧
      (text = "" ∨ IsDocComment text ↔ ∀ d ∈ docs, NoCommentEnd d) := by
  intro text
  have hlines := map_text_iterate_deeper depth (docLines docs)
  unfold text
  rw [← nonBlank?_eq_none_iff, render_eq_empty_iff]
  cases hs : nonBlank? docs with
  | none =>
    have hnone : deeper^[depth] (docLines docs) = [] := by
      unfold docLines at hlines ⊢
      rw [hs] at hlines ⊢
      exact List.map_eq_nil_iff.mp hlines
    refine ⟨iff_of_true hnone rfl, iff_of_true (Or.inl hnone) fun d hd => ?_⟩
    exact noCommentEnd_of_blank (nonBlank?_eq_none_iff.mp hs d hd)
  | some s =>
    have hcomment := isDocComment_iff_of_nonBlank hs indent hlines
    have hsome : deeper^[depth] (docLines docs) ≠ [] := fun hnone => by
      rw [hnone, docLines, hs] at hlines
      dsimp only at hlines
      split_ifs at hlines <;> simp at hlines
    refine ⟨iff_of_false hsome (by simp), ?_⟩
    rw [or_iff_right hsome, hcomment]
    obtain ⟨htrim, -⟩ := Option.filter_eq_some_iff.mp hs
    obtain ⟨d, rfl, rfl⟩ := Option.map_eq_some_iff.mp htrim
    simp [noCommentEnd_trim_iff]

/-- A pattern of files ends the comment that mentions it, so that what follows is code. -/
theorem not_isDocComment_glob :
    let text := render 2 (deeper^[1] (docLines (some "Users by glob src/*/*.ts")))
    text = "  /** Users by glob src/*/*.ts */\n" ∧ text ≠ "" ∧ ¬ IsDocComment text ∧
      code text = "   *.ts */\n" := by
  intro text
  have htext : text = "  /** Users by glob src/*/*.ts " ++ "*/\n" := by decide +kernel
  refine ⟨by decide +kernel, by decide +kernel, ?_, by decide +kernel⟩
  rintro ⟨-, front, hfront, hends⟩
  rw [htext] at hfront
  rw [← (String.append_left_inj _).mp hfront] at hends
  exact absurd hends (by decide)

end ApiSurface.Client
