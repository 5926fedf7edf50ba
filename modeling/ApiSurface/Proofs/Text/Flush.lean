import ApiSurface.Proofs.Path
import ApiSurface.Proofs.Text.Mention

/-!
# Text at the left margin

Spaces at the starts of lines stand between no word and its boundary, so a name on one line is
found with them and without them.

* `flush`, `flushed`: a text without the spaces at the starts of its lines;
* `unindented`, `unindented_eq`: these are its lines without the spaces at their starts;
* `flushed_append_break`, `WholeLines`, `flushed_append`: texts behind whole lines;
* `flush_eq_append_iff`: characters other than line breaks move nothing behind them to the margin;
* **`mentions_flushed`**: names without line breaks are mentioned at any indentation.
-/

namespace ApiSurface.Text

/-! ## Lines at the margin -/

/-- Characters without the spaces at the starts of their lines; `start` is whether a line starts
with them. -/
def flush : (start : Bool) → List Char → List Char
  | _, [] => []
  | start, c :: cs => if start && c == ' ' then flush true cs else c :: flush (c == '\n') cs

/-- A text without the spaces at the starts of its lines. -/
def flushed (s : String) : String := String.ofList (flush true s.toList)

/-- A line without the spaces at its start. -/
def unindent (l : String) : String := String.ofList (l.toList.dropWhile (· == ' '))

/-- The lines of a text without the spaces at their starts. -/
def unindented (s : String) : List String := (splitOn '\n' s).map unindent

variable {start : Bool} {c : Char} {cs ds name : List Char}

@[simp] theorem flush_nil (start : Bool) : flush start [] = [] := by rw [flush]

@[simp] theorem flush_space (cs : List Char) : flush true (' ' :: cs) = flush true cs := by
  rw [flush]
  rfl

@[simp] theorem flush_false_cons (c : Char) (cs : List Char) :
    flush false (c :: cs) = c :: flush (c == '\n') cs := by
  rw [flush]
  rfl

theorem flush_cons_of_ne (hc : c ≠ ' ') (cs : List Char) :
    flush start (c :: cs) = c :: flush (c == '\n') cs := by
  rw [flush, if_neg]
  rw [Bool.and_eq_true, beq_iff_eq]
  exact fun h => hc h.2

theorem flush_append_break (start : Bool) (cs ds : List Char) :
    flush start (cs ++ '\n' :: ds) = flush start cs ++ '\n' :: flush true ds := by
  induction cs generalizing start with
  | nil => exact flush_cons_of_ne (by decide) ds
  | cons c cs ih =>
    rw [List.cons_append, flush, flush]
    split_ifs with hspace
    · exact ih true
    · rw [ih, List.cons_append]

/-- Spaces in front of a line are dropped. -/
theorem flush_replicate_append (n : Nat) (cs : List Char) :
    flush true (List.replicate n ' ' ++ cs) = flush true cs := by
  induction n with
  | zero => rfl
  | succ n ih => rw [List.replicate_succ, List.cons_append, flush_space, ih]

theorem flush_false_eq_self (h : '\n' ∉ cs) : flush false cs = cs := by
  induction cs with
  | nil => rfl
  | cons c cs ih =>
    rw [List.mem_cons, not_or] at h
    rw [flush_false_cons, beq_false_of_ne (Ne.symm h.1), ih h.2]

theorem flush_true_eq_dropWhile (h : '\n' ∉ cs) : flush true cs = cs.dropWhile (· == ' ') := by
  induction cs with
  | nil => rfl
  | cons c cs ih =>
    by_cases hc : c = ' '
    · subst hc
      rw [flush_space, ih (List.not_mem_of_not_mem_cons h)]
      rfl
    · rw [flush_cons_of_ne hc, ← flush_false_cons, flush_false_eq_self h,
        List.dropWhile_cons_of_neg (by simpa using hc)]

theorem flushed_append_break (s t : String) :
    flushed (s ++ "\n" ++ t) = flushed s ++ "\n" ++ flushed t := by
  have hlist : (s ++ "\n" ++ t).toList = s.toList ++ '\n' :: t.toList := by simp
  rw [← String.toList_inj, flushed, hlist, flush_append_break]
  simp [flushed]

/-- A text of whole lines: it is empty, or it ends with a line break. -/
def WholeLines (s : String) : Prop := s = "" ∨ ∃ t, s = t ++ "\n"

theorem wholeLines_append {s t : String} (hs : WholeLines s) (ht : WholeLines t) :
    WholeLines (s ++ t) := by
  rcases ht with rfl | ⟨u, rfl⟩
  · rwa [String.append_empty]
  · exact Or.inr ⟨s ++ u, String.append_assoc.symm⟩

theorem wholeLines_emptyLine (s : String) : WholeLines (s ++ "\n\n") := by
  have hbreaks : "\n\n" = "\n" ++ "\n" := rfl
  exact Or.inr ⟨s ++ "\n", by rw [hbreaks, String.append_assoc]⟩

theorem flushed_append {s : String} (hs : WholeLines s) (t : String) :
    flushed (s ++ t) = flushed s ++ flushed t := by
  have hempty : flushed "" = "" := rfl
  rcases hs with rfl | ⟨u, rfl⟩
  · rw [String.empty_append, hempty, String.empty_append]
  · have hu := flushed_append_break u ""
    rw [String.append_empty, hempty, String.append_empty] at hu
    rw [flushed_append_break, hu]

theorem flushed_of_oneLine {l : String} (h : '\n' ∉ l.toList) : flushed l = unindent l := by
  rw [flushed, flush_true_eq_dropWhile h]
  rfl

theorem flushed_intercalate {ls : List String} (h : ∀ l ∈ ls, '\n' ∉ l.toList) :
    flushed ("\n".intercalate ls) = "\n".intercalate (ls.map unindent) := by
  induction ls with
  | nil => rfl
  | cons l ls ih =>
    obtain ⟨hl, hls⟩ := List.forall_mem_cons.mp h
    cases ls with
    | nil =>
      rw [List.map_singleton, String.intercalate_singleton, String.intercalate_singleton]
      exact flushed_of_oneLine hl
    | cons m ls =>
      rw [String.intercalate_cons_cons, flushed_append_break, ih hls, flushed_of_oneLine hl]
      exact String.intercalate_cons_cons.symm

/-- The lines of a text without the spaces at their starts are those of the text at the margin. -/
theorem unindented_eq (s : String) : unindented s = splitOn '\n' (flushed s) := by
  have hflush : flushed s = "\n".intercalate (unindented s) := by
    rw [unindented, ← flushed_intercalate fun _ => separator_not_mem]
    exact congrArg flushed (intercalate_splitOn '\n' s).symm
  rw [hflush]
  refine (splitOn_intercalate ?_ fun l hl hbreak => ?_).symm
  · exact List.map_eq_nil_iff.not.mpr (splitOn_ne_nil '\n' s)
  · obtain ⟨m, hm, rfl⟩ := List.mem_map.mp hl
    rw [unindent, String.toList_ofList] at hbreak
    exact separator_not_mem hm ((List.dropWhile_suffix _).subset hbreak)

/-! ## Names at the margin -/

theorem flush_eq_append_iff (h : '\n' ∉ name) :
    flush false cs = name ++ ds ↔ ∃ r, cs = name ++ r ∧ flush false r = ds := by
  induction name generalizing cs with
  | nil => simp
  | cons n name ih =>
    rw [List.mem_cons, not_or] at h
    cases cs with
    | nil => simp
    | cons c cs =>
      rw [flush_false_cons, List.cons_append, List.cons.injEq]
      constructor
      · rintro ⟨rfl, heq⟩
        rw [beq_false_of_ne (Ne.symm h.1)] at heq
        obtain ⟨r, rfl, hr⟩ := (ih h.2).mp heq
        exact ⟨r, rfl, hr⟩
      · rintro ⟨r, heq, hr⟩
        obtain ⟨rfl, rfl⟩ := List.cons.inj heq
        rw [beq_false_of_ne (Ne.symm h.1)]
        exact ⟨rfl, (ih h.2).mpr ⟨r, rfl, hr⟩⟩

theorem head?_flush_false (cs : List Char) : (flush false cs).head? = cs.head? := by
  cases cs with
  | nil => rfl
  | cons c cs => rw [flush_false_cons, List.head?_cons, List.head?_cons]

/-- A name stands at the front of a text if the text continues it, with a boundary at either end. -/
theorem mentionedAt_iff {before : Option Char} :
    mentionedAt name before cs = true ↔ ∃ r, cs = name ++ r ∧
      isBoundary before cs.head? = true ∧ isBoundary (name.getLast?.or before) r.head? = true := by
  have heq : mentionedAt name before cs = (name.isPrefixOf cs && isBoundary before cs.head? &&
      isBoundary (name.getLast?.or before) (cs.drop name.length).head?) := by
    unfold mentionedAt
    cases name.getLast? <;> rfl
  rw [heq, Bool.and_eq_true, Bool.and_eq_true, List.isPrefixOf_iff_prefix]
  constructor
  · rintro ⟨⟨⟨r, rfl⟩, hfront⟩, hback⟩
    rw [List.drop_left] at hback
    exact ⟨r, rfl, hfront, hback⟩
  · rintro ⟨r, rfl, hfront, hback⟩
    rw [List.drop_left]
    exact ⟨⟨⟨r, rfl⟩, hfront⟩, hback⟩

/-- A boundary depends on whether the characters around it belong to words. -/
theorem isBoundary_congr {b b' : Option Char} (h : b.any isWord = b'.any isWord) (a : Option Char) :
    isBoundary b a = isBoundary b' a := by
  rw [isBoundary, isBoundary, h]

theorem any_or_congr {b b' : Option Char} (h : b.any isWord = b'.any isWord) (a : Option Char) :
    (a.or b).any isWord = (a.or b').any isWord := by
  cases a with
  | none => exact h
  | some _ => rfl

theorem mentionedAt_flush {b b' : Option Char} (h : '\n' ∉ name)
    (hb : b.any isWord = b'.any isWord) :
    mentionedAt name b (flush false cs) = mentionedAt name b' cs := by
  rw [Bool.eq_iff_iff, mentionedAt_iff, mentionedAt_iff, head?_flush_false,
    isBoundary_congr hb]
  simp only [flush_eq_append_iff h, isBoundary_congr (any_or_congr hb _)]
  constructor
  · rintro ⟨_, ⟨r, heq, rfl⟩, hfront, hback⟩
    rw [head?_flush_false] at hback
    exact ⟨r, heq, hfront, hback⟩
  · rintro ⟨r, heq, hfront, hback⟩
    refine ⟨_, ⟨r, heq, rfl⟩, hfront, ?_⟩
    rwa [head?_flush_false]

/-- No name starts at a space that no word character stands before. -/
theorem mentionedAt_space {b : Option Char} (hb : b.any isWord = false) :
    mentionedAt name b (' ' :: cs) = false := by
  rw [Bool.eq_false_iff]
  intro h
  obtain ⟨-, -, hfront, -⟩ := mentionedAt_iff.mp h
  rw [isBoundary, hb, List.head?_cons] at hfront
  exact absurd hfront (by decide)

theorem mentionedFrom_flush {b b' : Option Char} (h : '\n' ∉ name)
    (hb : b.any isWord = b'.any isWord) (hstart : start = true → b.any isWord = false) :
    mentionedFrom name b (flush start cs) = mentionedFrom name b' cs := by
  induction cs generalizing start b b' with
  | nil =>
    rw [flush_nil, mentionedFrom, mentionedFrom, ← mentionedAt_flush h hb, flush_nil]
  | cons c cs ih =>
    rw [flush]
    split_ifs with hspace
    · obtain ⟨rfl, hc⟩ := Bool.and_eq_true_iff.mp hspace
      rw [beq_iff_eq] at hc
      subst hc
      have hbefore := hstart rfl
      rw [mentionedFrom, mentionedAt_space (hb ▸ hbefore), Bool.false_or]
      exact ih (hbefore.trans (by decide)) fun _ => hbefore
    · rw [mentionedFrom, mentionedFrom, ← flush_false_cons, mentionedAt_flush h hb, ih rfl]
      intro hbreak
      rw [beq_iff_eq.mp hbreak]
      decide

/-- **Names without line breaks are mentioned at any indentation.** -/
theorem mentions_flushed {n : String} (h : '\n' ∉ n.toList) (s : String) :
    mentions (flushed s) n = mentions s n := by
  unfold mentions flushed
  rw [String.toList_ofList]
  exact mentionedFrom_flush h rfl fun _ => rfl

end ApiSurface.Text
