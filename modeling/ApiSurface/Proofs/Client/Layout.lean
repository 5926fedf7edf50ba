import ApiSurface.Client.Layout
import Mathlib.Logic.Function.Iterate
import Mathlib.Tactic.SplitIfs

/-!
# The text of lines

* `render_append`, `render_cons`: the text of lines is that of their parts;
* `exists_render_eq`: a line is its text behind spaces;
* `map_text_deeper`, `map_text_iterate_deeper`: lines at other depths have the same texts;
* `exists_spaced`: each of several groups of lines stands among them as it is;
* `laid`, `render_eq_laid`, `laid_deeper`: lines as text at a depth;
* `laid_spaced`, `render_nested_spaced`: the text of groups, one behind the other or in a block;
* `exists_intercalate`: each of several texts stands among them as it is.
-/

namespace ApiSurface.Client

@[simp] theorem render_nil (indent : Nat) : render indent [] = "" := rfl

@[simp] theorem render_singleton (indent : Nat) (l : Line) :
    render indent [l] = l.render indent := by
  unfold render
  rw [List.map_singleton, String.join_cons, String.join_nil, String.append_empty]

@[simp] theorem render_append (indent : Nat) (ls ms : List Line) :
    render indent (ls ++ ms) = render indent ls ++ render indent ms := by
  unfold render
  rw [List.map_append, String.join_append]

theorem render_cons (indent : Nat) (l : Line) (ls : List Line) :
    render indent (l :: ls) = l.render indent ++ render indent ls := by
  rw [← render_singleton, ← render_append]
  rfl

/-- A number of spaces. -/
def spaces (n : Nat) : String := String.ofList (List.replicate n ' ')

/-- A line has nothing around its text but spaces and a line break. -/
theorem exists_render_eq (indent : Nat) (l : Line) :
    ∃ n, l.render indent = spaces n ++ l.text ++ "\n" := by
  unfold Line.render
  split_ifs with hempty
  · refine ⟨0, ?_⟩
    rw [String.isEmpty_iff.mp hempty]
    rfl
  · exact ⟨indent * l.depth, rfl⟩

theorem render_eq_empty_iff {indent : Nat} {ls : List Line} : render indent ls = "" ↔ ls = [] := by
  cases ls with
  | nil => simp
  | cons l ls =>
    obtain ⟨n, hl⟩ := exists_render_eq indent l
    rw [render_cons, hl]
    simp

/-! ## Text at a depth -/

/-- A line as text at a depth: behind the blanks of its depth, but an empty one without any. -/
def laidLine (indent depth : ℕ) (l : Line) : String :=
  (if l.text = "" then "" else spaces (indent * (depth + l.depth)) ++ l.text) ++ "\n"

/-- Lines as text at a depth. -/
def laid (indent depth : ℕ) (ls : List Line) : String :=
  String.join (ls.map (laidLine indent depth))

theorem laid_append (indent depth : ℕ) (ls ms : List Line) :
    laid indent depth (ls ++ ms) = laid indent depth ls ++ laid indent depth ms := by
  unfold laid
  rw [List.map_append, String.join_append]

theorem render_eq_laid (indent : ℕ) (ls : List Line) : render indent ls = laid indent 0 ls := by
  refine congrArg String.join (List.map_congr_left fun l _ => ?_)
  unfold Line.render laidLine
  by_cases h : l.text = ""
  · rw [if_pos h, if_pos (String.isEmpty_iff.mpr h)]
    rfl
  · rw [if_neg h, if_neg (mt String.isEmpty_iff.mp h), Nat.zero_add]
    rfl

theorem laid_deeper (indent depth : ℕ) (ls : List Line) :
    laid indent depth (deeper ls) = laid indent (depth + 1) ls := by
  unfold laid deeper
  rw [List.map_map]
  refine congrArg String.join (List.map_congr_left fun l _ => ?_)
  simp only [Function.comp_apply, laidLine, Nat.add_assoc, Nat.add_comm 1]

/-- Groups of lines stand one behind the other with an empty line between each two. -/
theorem laid_spaced (indent depth : ℕ) (gs : List (List Line)) :
    laid indent depth (spaced gs) = "\n".intercalate (gs.map (laid indent depth)) := by
  induction gs with
  | nil => rfl
  | cons g gs ih =>
    cases gs with
    | nil => rw [List.map_singleton, String.intercalate_singleton]; rfl
    | cons h gs =>
      have hspaced : spaced (g :: h :: gs) = g ++ ([emptyLine] ++ spaced (h :: gs)) := rfl
      have hempty : laid indent depth [emptyLine] = "\n" := by
        simp [laid, laidLine, emptyLine]
      rw [hspaced, laid_append, laid_append, hempty, ih]
      simp only [List.map_cons, String.intercalate_cons_cons, String.append_assoc]

/-- A block of groups of lines. -/
theorem render_nested_spaced (indent : ℕ) {opening closing : String} (hopening : opening ≠ "")
    (hclosing : closing ≠ "") (gs : List (List Line)) :
    render indent (nested opening (spaced gs) closing) =
      opening ++ "\n" ++ "\n".intercalate (gs.map (laid indent 1)) ++ (closing ++ "\n") := by
  have hline : ∀ text ≠ "", laid indent 0 [line text] = text ++ "\n" := by
    intro text htext
    simp [laid, laidLine, line, htext, spaces]
  have hnested : nested opening (spaced gs) closing =
      [line opening] ++ deeper (spaced gs) ++ [line closing] := rfl
  rw [render_eq_laid, hnested, laid_append, laid_append, hline _ hopening, hline _ hclosing,
    laid_deeper, laid_spaced]

/-- Each of several texts stands among them as it is. -/
theorem exists_intercalate {s t : String} {ss : List String} (hs : s ∈ ss) :
    ∃ before after, t.intercalate ss = before ++ s ++ after := by
  induction ss with
  | nil => exact absurd hs List.not_mem_nil
  | cons u ss ih =>
    cases ss with
    | nil =>
      refine ⟨"", "", ?_⟩
      rw [List.mem_singleton.mp hs, String.intercalate_singleton, String.append_empty,
        String.empty_append]
    | cons v ss =>
      rw [String.intercalate_cons_cons]
      rcases List.mem_cons.mp hs with rfl | hs
      · refine ⟨"", t ++ t.intercalate (v :: ss), ?_⟩
        rw [String.empty_append, String.append_assoc]
      · obtain ⟨before, after, heq⟩ := ih hs
        refine ⟨u ++ t ++ before, after, ?_⟩
        rw [heq]
        simp only [String.append_assoc]

theorem map_text_deeper (ls : List Line) : (deeper ls).map (·.text) = ls.map (·.text) := by
  unfold deeper
  rw [List.map_map]
  rfl

theorem map_text_iterate_deeper (depth : Nat) (ls : List Line) :
    (deeper^[depth] ls).map (·.text) = ls.map (·.text) := by
  induction depth generalizing ls with
  | zero => rfl
  | succ depth ih => rw [Function.iterate_succ_apply, ih, map_text_deeper]

theorem exists_spaced {g : List Line} {gs : List (List Line)} (hg : g ∈ gs) :
    ∃ before after, spaced gs = before ++ g ++ after := by
  induction gs with
  | nil => exact absurd hg List.not_mem_nil
  | cons h gs ih =>
    cases gs with
    | nil =>
      rw [List.mem_singleton.mp hg]
      exact ⟨[], [], (List.append_nil h).symm⟩
    | cons h' gs =>
      have hspaced : spaced (h :: h' :: gs) = h ++ emptyLine :: spaced (h' :: gs) := rfl
      rw [hspaced]
      rcases List.mem_cons.mp hg with rfl | hg
      · exact ⟨[], emptyLine :: spaced (h' :: gs), rfl⟩
      · obtain ⟨before, after, hrest⟩ := ih hg
        refine ⟨h ++ emptyLine :: before, after, ?_⟩
        rw [hrest]
        simp

end ApiSurface.Client
