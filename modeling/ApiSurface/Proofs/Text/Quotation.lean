import ApiSurface.Proofs.Text.Quote
import ApiSurface.Settings.Basic
import ApiSurface.Source.TypeExpr
import Mathlib.Logic.Function.Basic

/-!
# Literals delimit themselves

Escaping is two replacements in a whole text: backslashes first, then delimiters in what that gave.
The literal ends where its text ends, whatever follows, and no two texts have the same one.

* `replaced`, `toList_replace`: a character of a text, replaced at each place;
* `escape_eq_replaced`, `quoted_eq_replace`: escaping as two replacements in a row;
* `quote_append_inj`: a literal in front of any text determines its style, its text and the rest;
* **`quote_delimits_itself`**: literals of both styles, and literal types that are texts, are read
  back up to their ends.
-/

namespace ApiSurface

open ApiSurface.Text

namespace Text

/-! ## Replacing a character -/

/-- Characters with others in the place of each `c`. -/
def replaced (c : Char) (r cs : List Char) : List Char :=
  cs.flatMap fun d => if d = c then r else [d]

theorem replaced_cons_self (c : Char) (r cs : List Char) :
    replaced c r (c :: cs) = r ++ replaced c r cs := by
  rw [replaced, List.flatMap_cons, if_pos rfl]
  rfl

theorem replaced_cons_of_ne {c d : Char} (h : d ≠ c) (r cs : List Char) :
    replaced c r (d :: cs) = d :: replaced c r cs := by
  rw [replaced, List.flatMap_cons, if_neg h]
  rfl

theorem replaced_append (c : Char) (r as bs : List Char) :
    replaced c r (as ++ bs) = replaced c r as ++ replaced c r bs :=
  List.flatMap_append

theorem replaced_of_notMem {c : Char} {cs : List Char} (h : c ∉ cs) (r : List Char) :
    replaced c r cs = cs := by
  induction cs with
  | nil => rfl
  | cons d cs ih =>
    rw [List.mem_cons, not_or] at h
    rw [replaced_cons_of_ne (Ne.symm h.1), ih h.2]

section Search

open String.Slice String.Slice.Pattern String.Slice.Pattern.Model

variable {s : String.Slice} {c : Char}

/-- A character does not stand where a search for it finds nothing. -/
theorem notMem_slice {p q : s.Pos} (hle : p ≤ q)
    (h : ∀ x, p ≤ x → x < q → ¬ MatchesAt c x) : c ∉ (s.slice p q hle).copy.toList := by
  rw [mem_toList_copy_iff_exists_get]
  rintro ⟨x, hx, rfl⟩
  have hlt : Pos.ofSlice x < q := by
    simpa [← Pos.lt_endPos_iff, ← Pos.ofSlice_lt_ofSlice_iff] using hx
  exact h _ Pos.le_ofSlice hlt (Char.matchesAt_iff.mpr ⟨_, Pos.get_eq_get_ofSlice.symm⟩)

/-- What a replacement appends for a step of its search. -/
def replaceStep (r sofar : String) : SearchStep s → String
  | .matched _ _ => sofar ++ r.toSlice
  | .rejected p q => sofar ++ s.slice! p q

/-- What a replacement appends for a search from a position on. -/
theorem toList_foldl_replaceStep (r : String) {p : s.Pos} {steps : List (SearchStep s)}
    (h : IsValidSearchFrom c p steps) (sofar : String) :
    (steps.foldl (replaceStep r) sofar).toList =
      sofar.toList ++ replaced c r.toList (s.sliceFrom p).copy.toList := by
  induction h generalizing sofar with
  | endPos => simp [replaced]
  | @matched _ start _ hmatch _ ih =>
    obtain ⟨hend, rfl, rfl⟩ := Char.isLongestMatchAt_iff.mp hmatch
    rw [List.foldl_cons, ih, (start.splits_next_right hend).copy_sliceFrom_eq]
    simp [replaceStep, String.appendSlice_eq, replaced_cons_self]
  | @mismatched _ start stop hlt hnone _ ih =>
    -- what is passed over from `start` to `stop` has no `c`, and goes over as it is
    have hle := Std.le_of_lt hlt
    obtain ⟨_, _, hstart, hstop⟩ := copy_slice_eq_iff_splits.mp ⟨hle, rfl⟩
    rw [List.foldl_cons, ih, hstart.copy_sliceFrom_eq, hstop.copy_sliceFrom_eq,
      String.toList_append, replaced_append, replaced_of_notMem (notMem_slice hle hnone),
      replaceStep, ← slice_eq_slice! (h := hle), String.appendSlice_eq, String.toList_append,
      List.append_assoc]

/-- **A character is replaced at each place of a text**, and the rest of the text stays. -/
theorem toList_replace (t : String) (c : Char) (r : String) :
    (t.replace c r).toList = replaced c r.toList t.toList := by
  have hsearch : IsValidSearchFrom c t.toSlice.startPos
      (ToForwardSearcher.toSearcher c t.toSlice).toList :=
    LawfulToForwardSearcherModel.isValidSearchFrom_toList _
  have hfold : t.replace c r =
      (ToForwardSearcher.toSearcher c t.toSlice).toList.foldl (replaceStep r) "" := by
    rw [Std.Iter.foldl_toList, String.replace, String.Slice.replace]
    congr 1
    funext sofar step
    cases step <;> rfl
  rw [hfold, toList_foldl_replaceStep r hsearch]
  simp

end Search

/-! ## Escaping as two replacements -/

variable {q : Char}

/-- The second replacement finds no delimiter among the backslashes that the first one wrote. -/
theorem escape_eq_replaced (hq : q ≠ '\\') (cs : List Char) :
    escape q cs = replaced q ['\\', q] (replaced '\\' ['\\', '\\'] cs) := by
  induction cs with
  | nil => rfl
  | cons c cs ih =>
    rw [escape]
    by_cases hslash : c = '\\'
    · subst hslash
      rw [if_pos (Or.inl rfl), ih, replaced_cons_self, List.cons_append, List.cons_append,
        List.nil_append, replaced_cons_of_ne hq.symm, replaced_cons_of_ne hq.symm]
    · rw [replaced_cons_of_ne hslash]
      by_cases hdelimiter : c = q
      · subst hdelimiter
        rw [if_pos (Or.inr rfl), ih, replaced_cons_self]
        rfl
      · rw [if_neg (not_or.mpr ⟨hslash, hdelimiter⟩), ih, replaced_cons_of_ne hdelimiter]

theorem quoted_eq_replace (hq : q ≠ '\\') (s : String) :
    quoted q s = String.singleton q ++
      (s.replace '\\' "\\\\").replace q ("\\" ++ String.singleton q) ++ String.singleton q := by
  rw [← String.toList_inj, quoted, String.toList_ofList, String.toList_append, String.toList_append,
    toList_replace, toList_replace, escape_eq_replaced hq]
  simp

end Text

/-! ## Literals of both styles -/

namespace QuoteStyle

theorem delimiter_ne_backslash (q : QuoteStyle) : q.delimiter ≠ '\\' := by
  cases q <;> decide

theorem delimiter_injective : Function.Injective delimiter := by
  intro p q h
  cases p <;> cases q
  · rfl
  · exact absurd h (by decide)
  · exact absurd h (by decide)
  · rfl

/-- **A literal delimits itself**: in front of any text, it has one style and holds one text. -/
theorem quote_append_inj {p q : QuoteStyle} {s s' t t' : String}
    (h : p.quote s ++ t = q.quote s' ++ t') : p = q ∧ s = s' ∧ t = t' := by
  obtain ⟨hdelimiter, hs, ht⟩ := quoted_append_inj q.delimiter_ne_backslash h
  exact ⟨delimiter_injective hdelimiter, hs, ht⟩

theorem quote_injective2 : Function.Injective2 quote := by
  intro p q s s' h
  obtain ⟨hstyle, hs, -⟩ := quote_append_inj (congrArg (· ++ "") h)
  exact ⟨hstyle, hs⟩

end QuoteStyle

theorem Literal.text_string (s : String) : (string s).text = QuoteStyle.double.quote s := rfl

/-- **Literals delimit themselves.** The scanner reads just what starts with a delimiter, characters
that spell a text and a delimiter, and it stops behind that. A literal is made by a replacement of
all backslashes and then one of all delimiters. Whatever follows it, the scanner reads its text and
leaves what follows, so that no two texts have one literal; a literal type that is a text is such a
literal in double quotes. -/
theorem quote_delimits_itself :
    (∀ (q : QuoteStyle) (cs v r : List Char), scan q.delimiter cs = some (v, r) ↔
      ∃ w, cs = q.delimiter :: (w ++ q.delimiter :: r) ∧ Spells q.delimiter w v) ∧
    (∀ (q : QuoteStyle) (s : String), q.quote s = String.singleton q.delimiter ++
      (s.replace '\\' "\\\\").replace q.delimiter ("\\" ++ String.singleton q.delimiter) ++
      String.singleton q.delimiter) ∧
    (∀ (q : QuoteStyle) (s t : String),
      scan q.delimiter (q.quote s ++ t).toList = some (s.toList, t.toList)) ∧
    (∀ s t : String,
      scan '"' ((Literal.string s).text ++ t).toList = some (s.toList, t.toList)) ∧
    Function.Injective2 QuoteStyle.quote ∧
    Function.Injective fun s => (Literal.string s).text := by
  have hread : ∀ (q : QuoteStyle) (s t : String),
      scan q.delimiter (q.quote s ++ t).toList = some (s.toList, t.toList) :=
    fun q s t => scan_quoted q.delimiter_ne_backslash s t
  refine ⟨fun q cs v r => scan_eq_some_iff q.delimiter_ne_backslash,
    fun q s => quoted_eq_replace q.delimiter_ne_backslash s, hread, ?_,
    QuoteStyle.quote_injective2, ?_⟩
  · intro s t
    rw [Literal.text_string]
    exact hread .double s t
  · simp only [Literal.text_string]
    exact QuoteStyle.quote_injective2.right .double

/-- A backslash before a delimiter, and a delimiter behind the literal. -/
example : scan '"' (QuoteStyle.double.quote "a\\\"" ++ "\"").toList =
    some (['a', '\\', '"'], ['"']) := by
  decide

end ApiSurface
