import ApiSurface.Proofs.Client.Code
import ApiSurface.Proofs.Client.Layout

/-!
# Lines whose comments and literals end in them

* `ClosedLines`: lines that end all comments and literals at whatever depths they stand;
* `closedLines_docLines`: a documentation comment ends on its last line;
* `WordOfLines`: a name is a word of the code of lines at whatever depths they stand.
-/

namespace ApiSurface.Client

open ApiSurface.Text

variable {ls ms : List Line} {n : String}

/-! ## Closed lines -/

/-- At whatever depths lines stand, all comments and literals that they start end in them. -/
def ClosedLines (ls : List Line) : Prop :=
  ∀ indent (ms : List Line), ms.map (·.text) = ls.map (·.text) → Closed (render indent ms)

theorem bare_spaces (n : Nat) : Bare (spaces n) := by
  unfold Bare spaces
  rw [String.toList_ofList]
  exact List.all_eq_true.mpr fun c hc => List.eq_of_mem_replicate hc ▸ by decide

/-- What a line has around its text is bare. -/
theorem exists_render_line (indent : Nat) (l : Line) :
    ∃ front, Bare front ∧ l.render indent = front ++ l.text ++ "\n" := by
  obtain ⟨n, heq⟩ := exists_render_eq indent l
  exact ⟨spaces n, bare_spaces n, heq⟩

theorem closed_render_line (indent : Nat) {l : Line} (h : Closed l.text) :
    Closed (l.render indent) := by
  obtain ⟨front, hfront, heq⟩ := exists_render_line indent l
  rw [heq]
  exact (hfront.closed.append h).append (Bare.closed (by decide))

theorem closedLines_nil : ClosedLines [] := by
  intro indent ms hms
  rw [List.map_eq_nil_iff.mp hms, render_nil]
  exact closed_empty

theorem ClosedLines.append (hls : ClosedLines ls) (hms : ClosedLines ms) :
    ClosedLines (ls ++ ms) := by
  intro indent ks hks
  rw [List.map_append, List.map_eq_append_iff] at hks
  obtain ⟨ks₁, ks₂, rfl, hks₁, hks₂⟩ := hks
  rw [render_append]
  exact (hls indent ks₁ hks₁).append (hms indent ks₂ hks₂)

theorem closedLines_singleton {l : Line} (h : Closed l.text) : ClosedLines [l] := by
  intro indent ms hms
  obtain ⟨m, rfl, hm⟩ := List.map_eq_singleton_iff.mp hms
  rw [render_singleton]
  exact closed_render_line indent (hm ▸ h)

theorem closedLines_cons {l : Line} (hl : Closed l.text) (hls : ClosedLines ls) :
    ClosedLines (l :: ls) :=
  (closedLines_singleton hl).append hls

theorem closedLines_of_forall (h : ∀ l ∈ ls, Closed l.text) : ClosedLines ls := by
  induction ls with
  | nil => exact closedLines_nil
  | cons l ls ih =>
    exact closedLines_cons (h l List.mem_cons_self) (ih fun m hm => h m (List.mem_cons_of_mem l hm))

theorem ClosedLines.deeper (h : ClosedLines ls) : ClosedLines (deeper ls) := by
  intro indent ms hms
  rw [map_text_deeper] at hms
  exact h indent ms hms

theorem ClosedLines.nested {opening closing : String} (hopening : Closed opening)
    (h : ClosedLines ls) (hclosing : Closed closing) :
    ClosedLines (nested opening ls closing) :=
  closedLines_cons hopening (h.deeper.append (closedLines_singleton hclosing))

theorem closedLines_spaced {gs : List (List Line)} (h : ∀ g ∈ gs, ClosedLines g) :
    ClosedLines (spaced gs) := by
  induction gs with
  | nil => exact closedLines_nil
  | cons g gs ih =>
    have hrest := ih fun g' hg' => h g' (List.mem_cons_of_mem g hg')
    cases gs with
    | nil => exact h g List.mem_cons_self
    | cons g' gs =>
      exact (h g List.mem_cons_self).append (closedLines_cons closed_empty hrest)

/-! ## Documentation comments -/

/-- The lines of a text are parts of it, and the first is its beginning. -/
theorem infix_of_mem_splitLines (cs : List Char) :
    (∀ l ∈ splitLines cs, l <:+: cs) ∧ ∀ l ∈ (splitLines cs).head?, l <+: cs := by
  fun_induction splitLines cs with
  | case1 => exact ⟨fun _ h => absurd h List.not_mem_nil, fun _ h => absurd h (by simp)⟩
  | case2 r ih =>
    refine ⟨fun l hl => ?_, fun l hl => Option.some.inj hl ▸ List.nil_prefix⟩
    rcases List.mem_cons.mp hl with rfl | hl
    · exact List.nil_infix
    · exact (ih.1 l hl).trans (List.suffix_cons _ _).isInfix
  | case3 r ih =>
    refine ⟨fun l hl => ?_, fun l hl => Option.some.inj hl ▸ List.nil_prefix⟩
    rcases List.mem_cons.mp hl with rfl | hl
    · exact List.nil_infix
    · exact (ih.1 l hl).trans (List.suffix_append ['\r', '\n'] r).isInfix
  | case4 c r _ _ ih =>
    cases hr : splitLines r with
    | nil =>
      have hc : [c] <+: c :: r := List.prefix_append [c] r
      refine ⟨fun l hl => ?_, fun l hl => ?_⟩
      · exact List.mem_singleton.mp hl ▸ hc.isInfix
      · exact Option.some.inj hl ▸ hc
    | cons first rest =>
      rw [hr] at ih
      have hc : c :: first <+: c :: r := List.cons_prefix_cons.mpr ⟨rfl, ih.2 first rfl⟩
      refine ⟨fun l hl => ?_, fun l hl => Option.some.inj hl ▸ hc⟩
      rcases List.mem_cons.mp hl with rfl | hl
      · exact hc.isInfix
      · exact (ih.1 l (List.mem_cons_of_mem first hl)).trans (List.suffix_cons c r).isInfix

theorem prefix_of_dropEnd (cs : List Char) : dropEnd cs <+: cs := by
  have h : (cs.reverse.dropWhile isBlank).reverse <+: cs.reverse.reverse :=
    List.reverse_prefix.mpr (List.dropWhile_suffix isBlank)
  rwa [List.reverse_reverse] at h

theorem NoCommentEnd.part {s t : String} (h : NoCommentEnd s) (ht : t.toList <:+: s.toList) :
    NoCommentEnd t := by
  obtain ⟨front, back, heq⟩ := ht
  unfold NoCommentEnd at h
  rw [← heq] at h
  exact h.left_of_append.right_of_append

theorem NoCommentEnd.trimEnd {s : String} (h : NoCommentEnd s) : NoCommentEnd (trimEnd s) := by
  refine h.part ?_
  unfold Text.trimEnd
  rw [String.toList_ofList]
  exact (prefix_of_dropEnd _).isInfix

theorem NoCommentEnd.of_mem_lines {s t : String} (h : NoCommentEnd s) (ht : t ∈ lines s) :
    NoCommentEnd t := by
  obtain ⟨l, hl, rfl⟩ := List.mem_map.mp ht
  refine h.part ?_
  rw [String.toList_ofList]
  exact (infix_of_mem_splitLines _).1 l hl

theorem NoCommentEnd.of_nonBlank? {docs : Option String} {s : String}
    (h : ∀ d ∈ docs, NoCommentEnd d) (hs : nonBlank? docs = some s) : NoCommentEnd s := by
  obtain ⟨hs, -⟩ := Option.filter_eq_some_iff.mp hs
  obtain ⟨d, hd, rfl⟩ := Option.map_eq_some_iff.mp hs
  refine (h d hd).part ?_
  unfold trim
  rw [String.toList_ofList]
  exact (prefix_of_dropEnd _).isInfix.trans (List.dropWhile_suffix isBlank).isInfix

theorem commentText_docLine {s : String} (h : NoCommentEnd s) : CommentText (docLine s).text := by
  unfold docLine
  dsimp only
  split_ifs
  · exact Bare.commentText (by decide)
  · have hstar : " * " = " *" ++ " " := rfl
    have hline : (line (" * " ++ trimEnd s)).text = " *" ++ (" " ++ trimEnd s) := by
      rw [← String.append_assoc, ← hstar]
      rfl
    rw [hline]
    exact (Bare.commentText (by decide)).append (commentText_blank_append h.trimEnd)

theorem commentText_render (indent : Nat) (h : ∀ l ∈ ls, CommentText l.text) :
    CommentText (render indent ls) := by
  induction ls with
  | nil =>
    rw [render_nil]
    exact Bare.commentText (by decide)
  | cons l ls ih =>
    have hcons : l :: ls = [l] ++ ls := rfl
    rw [hcons, render_append, render_singleton]
    obtain ⟨front, hfront, heq⟩ := exists_render_line indent l
    rw [heq]
    exact ((hfront.commentText.append (h l List.mem_cons_self)).append
      (Bare.commentText (by decide))).append (ih fun m hm => h m (List.mem_cons_of_mem l hm))

/-- A comment over several lines ends on the last of them. -/
theorem closed_render_comment (indent : Nat) {first last : Line} (hfirst : first.text = "/**")
    (hlast : last.text = " */") (hls : ∀ l ∈ ls, CommentText l.text) :
    Closed (render indent (first :: ls ++ [last])) := by
  obtain ⟨before, hbefore, hopen⟩ := exists_render_line indent first
  obtain ⟨between, hbetween, hclose⟩ := exists_render_line indent last
  have hinner : CommentText ("*\n" ++ render indent ls ++ between ++ " ") :=
    (((Bare.commentText (by decide)).append (commentText_render indent hls)).append
      hbetween.commentText).append (Bare.commentText (by decide))
  have hopening : ∀ t, "/**" ++ ("\n" ++ t) = "/*" ++ ("*\n" ++ t) := fun t => by
    rw [← String.append_assoc, ← String.append_assoc]
    rfl
  have hclosing : " */" = " " ++ "*/" := rfl
  have hcons : first :: ls = [first] ++ ls := rfl
  have heq : render indent (first :: ls ++ [last]) =
      before ++ ("/*" ++ ("*\n" ++ render indent ls ++ between ++ " ") ++ "*/") ++ "\n" := by
    rw [hcons, render_append, render_append, render_singleton, render_singleton, hopen, hclose,
      hfirst, hlast, hclosing]
    simp only [String.append_assoc]
    rw [hopening]
  rw [heq]
  exact (hbefore.closed.append (closed_comment hinner)).append (Bare.closed (by decide))

/-- **A documentation comment ends on its last line.** -/
theorem closedLines_docLines {docs : Option String} (h : ∀ d ∈ docs, NoCommentEnd d) :
    ClosedLines (docLines docs) := by
  unfold docLines
  cases hs : nonBlank? docs with
  | none => exact closedLines_nil
  | some s =>
    have htext : NoCommentEnd s := .of_nonBlank? h hs
    dsimp only
    split_ifs
    · intro indent ms hms
      rw [List.map_append, List.map_cons, List.map_eq_append_iff] at hms
      obtain ⟨front, back, rfl, hfront, hback⟩ := hms
      obtain ⟨first, middle, rfl, hfirst, hmiddle⟩ := List.map_eq_cons_iff.mp hfront
      obtain ⟨last, rfl, hlast⟩ := List.map_eq_singleton_iff.mp hback
      refine closed_render_comment indent hfirst hlast fun l hl => ?_
      have hmem : l.text ∈ ((lines s).map docLine).map (·.text) :=
        hmiddle ▸ List.mem_map_of_mem hl
      rw [List.map_map] at hmem
      obtain ⟨t, ht, heq⟩ := List.mem_map.mp hmem
      exact heq ▸ commentText_docLine (htext.of_mem_lines ht)
    · have hinner : CommentText ("*" ++ (" " ++ s) ++ " ") :=
        ((Bare.commentText (by decide)).append (commentText_blank_append htext)).append
          (Bare.commentText (by decide))
      have hopening : "/** " = "/*" ++ ("*" ++ " ") := rfl
      have hclosing : " */" = " " ++ "*/" := rfl
      have heq : "/** " ++ s ++ " */" = "/*" ++ ("*" ++ (" " ++ s) ++ " ") ++ "*/" := by
        rw [hopening, hclosing]
        simp only [String.append_assoc]
      refine closedLines_singleton ?_
      change Closed ("/** " ++ s ++ " */")
      rw [heq]
      exact closed_comment hinner

/-! ## Words of lines -/

/-- At whatever depths lines stand, a name is a word of their code. -/
def WordOfLines (n : String) (ls : List Line) : Prop :=
  ∀ indent (ms : List Line), ms.map (·.text) = ls.map (·.text) →
    InnerWord n (code (render indent ms))

theorem WordOfLines.append (h : WordOfLines n ls) (hls : ClosedLines ls) :
    WordOfLines n (ls ++ ms) := by
  intro indent ks hks
  rw [List.map_append, List.map_eq_append_iff] at hks
  obtain ⟨ks₁, ks₂, rfl, hks₁, -⟩ := hks
  rw [render_append, hls indent ks₁ hks₁]
  exact (h indent ks₁ hks₁).append

theorem WordOfLines.prepend (h : WordOfLines n ls) (hms : ClosedLines ms) :
    WordOfLines n (ms ++ ls) := by
  intro indent ks hks
  rw [List.map_append, List.map_eq_append_iff] at hks
  obtain ⟨ks₁, ks₂, rfl, hks₁, hks₂⟩ := hks
  rw [render_append, hms indent ks₁ hks₁]
  exact (h indent ks₂ hks₂).prepend

theorem wordOfLines_singleton {l : Line} (hl : Closed l.text) (h : InnerWord n (code l.text)) :
    WordOfLines n [l] := by
  intro indent ms hms
  obtain ⟨m, rfl, hm⟩ := List.map_eq_singleton_iff.mp hms
  obtain ⟨front, hfront, heq⟩ := exists_render_line indent m
  rw [render_singleton, heq, hm, hfront.closed.append hl, hfront.closed]
  exact h.prepend.append

theorem WordOfLines.deeper (h : WordOfLines n ls) : WordOfLines n (deeper ls) := by
  intro indent ms hms
  rw [map_text_deeper] at hms
  exact h indent ms hms

theorem nested_eq_append (opening closing : String) (ls : List Line) :
    nested opening ls closing = [line opening] ++ (deeper ls ++ [line closing]) := rfl

theorem wordOfLines_opening {opening closing : String} (hopening : Closed opening)
    (h : InnerWord n (code opening)) : WordOfLines n (nested opening ls closing) := by
  have hline : Closed (line opening).text := hopening
  rw [nested_eq_append]
  exact (wordOfLines_singleton hline h).append (closedLines_singleton hline)

theorem WordOfLines.nested {opening closing : String} (hopening : Closed opening)
    (hls : ClosedLines ls) (h : WordOfLines n ls) : WordOfLines n (nested opening ls closing) := by
  have hline : Closed (line opening).text := hopening
  rw [nested_eq_append]
  exact (h.deeper.append hls.deeper).prepend (closedLines_singleton hline)

theorem wordOfLines_spaced {g : List Line} {gs : List (List Line)} (hg : g ∈ gs)
    (hgs : ∀ g ∈ gs, ClosedLines g) (h : WordOfLines n g) : WordOfLines n (spaced gs) := by
  induction gs with
  | nil => exact absurd hg List.not_mem_nil
  | cons g₁ gs ih =>
    have hg₁ : ClosedLines g₁ := hgs g₁ List.mem_cons_self
    cases gs with
    | nil => exact List.mem_singleton.mp hg ▸ h
    | cons g₂ gs =>
      rcases List.mem_cons.mp hg with rfl | hg
      · exact h.append hg₁
      · have hrest := ih hg fun g' hg' => hgs g' (List.mem_cons_of_mem g₁ hg')
        have hempty : ClosedLines [emptyLine] := closedLines_singleton closed_empty
        exact (hrest.prepend hempty).prepend hg₁

end ApiSurface.Client
