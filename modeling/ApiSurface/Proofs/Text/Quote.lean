import ApiSurface.Text.Quote
import Mathlib.Tactic.SplitIfs

/-!
# Literals are read back

* `Spells`: which characters between delimiters spell a text;
* `Spells.scanBody_append`, `exists_spells_of_scanBody`: up to the first bare delimiter, the scanner
  reads just these;
* **`scan_eq_some_iff`**: the scanner reads literals, and nothing else;
* `scanBody_escape`, `scan_quoted`: an escaped text between its delimiters is read back, whatever
  follows;
* `quoted_append_inj`: where a literal ends, and what it holds, does not depend on what follows;
* `length_scanBody_lt`: what follows a literal is shorter than the literal with it.
-/

namespace ApiSurface.Text

variable {q : Char}

/-! ## Spelling -/

/-- The first characters spell the second ones between delimiters `q`: a backslash and the character
behind it stand for that character, any other character but the delimiter for itself. -/
inductive Spells (q : Char) : List Char → List Char → Prop
  | nil : Spells q [] []
  | escaped (c : Char) {w v : List Char} (h : Spells q w v) : Spells q ('\\' :: c :: w) (c :: v)
  | plain {c : Char} (hq : c ≠ q) (hc : c ≠ '\\') {w v : List Char} (h : Spells q w v) :
      Spells q (c :: w) (c :: v)

theorem spells_escape (q : Char) (cs : List Char) : Spells q (escape q cs) cs := by
  induction cs with
  | nil => exact .nil
  | cons c cs ih =>
    rw [escape]
    split_ifs with hc
    · exact ih.escaped c
    · rw [not_or] at hc
      exact ih.plain hc.2 hc.1

/-! ## The scanner -/

theorem scanBody_delimiter (q : Char) (r : List Char) : scanBody q (q :: r) = some ([], r) := by
  cases r <;> simp [scanBody]

theorem scanBody_cons {c : Char} (hq : c ≠ q) (hc : c ≠ '\\') {cs : List Char} (hcs : cs ≠ []) :
    scanBody q (c :: cs) = (scanBody q cs).map fun p => (c :: p.1, p.2) := by
  obtain ⟨d, r, rfl⟩ := List.exists_cons_of_ne_nil hcs
  rw [scanBody, if_neg hq, if_neg hc]

theorem scanBody_escaped (hq : q ≠ '\\') (c : Char) (r : List Char) :
    scanBody q ('\\' :: c :: r) = (scanBody q r).map fun p => (c :: p.1, p.2) := by
  rw [scanBody, if_neg hq.symm, if_pos rfl]

/-- A spelling up to its delimiter is read, and what follows is left. -/
theorem Spells.scanBody_append (hq : q ≠ '\\') {w v : List Char} (h : Spells q w v)
    (r : List Char) : scanBody q (w ++ q :: r) = some (v, r) := by
  induction h with
  | nil => exact scanBody_delimiter q r
  | escaped c _ ih =>
    rw [List.cons_append, List.cons_append, scanBody_escaped hq, ih]
    rfl
  | plain hdelimiter hslash _ ih =>
    rw [List.cons_append, scanBody_cons hdelimiter hslash (by simp), ih]
    rfl

theorem exists_spells_of_scanBody {cs v r : List Char} (h : scanBody q cs = some (v, r)) :
    ∃ w, cs = w ++ q :: r ∧ Spells q w v := by
  fun_induction scanBody q cs generalizing v r with
  | case1 => cases h
  | case2 => cases h; exact ⟨[], rfl, .nil⟩
  | case3 => cases h
  | case4 => cases h; exact ⟨[], rfl, .nil⟩
  | case5 d _ _ ih =>
    obtain ⟨p, hp, heq⟩ := Option.map_eq_some_iff.mp h
    cases heq
    obtain ⟨w, hw, hspells⟩ := ih hp
    exact ⟨'\\' :: d :: w, by rw [hw]; rfl, hspells.escaped d⟩
  | case6 c _ _ hdelimiter hslash ih =>
    obtain ⟨p, hp, heq⟩ := Option.map_eq_some_iff.mp h
    cases heq
    obtain ⟨w, hw, hspells⟩ := ih hp
    exact ⟨c :: w, by rw [hw]; rfl, hspells.plain hdelimiter hslash⟩

/-- **The scanner reads literals**, each up to its first bare delimiter, and nothing else. -/
theorem scan_eq_some_iff (hq : q ≠ '\\') {cs v r : List Char} :
    scan q cs = some (v, r) ↔ ∃ w, cs = q :: (w ++ q :: r) ∧ Spells q w v := by
  constructor
  · intro h
    cases cs with
    | nil => cases h
    | cons c cs =>
      rw [scan] at h
      split_ifs at h with hc
      obtain ⟨w, hw, hspells⟩ := exists_spells_of_scanBody h
      exact ⟨w, by rw [hc, hw], hspells⟩
  · rintro ⟨w, rfl, hspells⟩
    rw [scan, if_pos rfl, hspells.scanBody_append hq]

theorem length_scanBody_lt {cs t r : List Char} (h : scanBody q cs = some (t, r)) :
    r.length < cs.length := by
  obtain ⟨w, rfl, -⟩ := exists_spells_of_scanBody h
  rw [List.length_append, List.length_cons]
  omega

/-! ## Escaped texts -/

/-- **An escaped text up to its delimiter is read back**, and what follows is left. -/
theorem scanBody_escape (hq : q ≠ '\\') (cs r : List Char) :
    scanBody q (escape q cs ++ q :: r) = some (cs, r) :=
  (spells_escape q cs).scanBody_append hq r

theorem toList_quoted_append (q : Char) (s : String) (r : List Char) :
    (quoted q s).toList ++ r = q :: (escape q s.toList ++ q :: r) := by
  rw [quoted, String.toList_ofList, List.cons_append, List.append_assoc, List.singleton_append]

/-- **A literal is read back**, and what follows is left. -/
theorem scan_quoted (hq : q ≠ '\\') (s t : String) :
    scan q (quoted q s ++ t).toList = some (s.toList, t.toList) := by
  rw [String.toList_append, toList_quoted_append, scan, if_pos rfl, scanBody_escape hq]

/-- Literals before other texts are the same only if they have the same delimiter and hold the same
text. -/
theorem quoted_append_inj {p : Char} (hq : q ≠ '\\') {s s' t t' : String}
    (h : quoted p s ++ t = quoted q s' ++ t') : p = q ∧ s = s' ∧ t = t' := by
  have hlist := congrArg String.toList h
  rw [String.toList_append, String.toList_append, toList_quoted_append,
    toList_quoted_append] at hlist
  obtain rfl := (List.cons.inj hlist).1
  have hscan := scan_quoted hq s t
  rw [h, scan_quoted hq] at hscan
  obtain ⟨hs, ht⟩ := Prod.mk.inj (Option.some.inj hscan)
  exact ⟨rfl, (String.toList_inj.mp hs).symm, (String.toList_inj.mp ht).symm⟩

end ApiSurface.Text
