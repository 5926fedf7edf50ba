import ApiSurface.Proofs.Source.TypeExpr
import ApiSurface.Route.Template
import Mathlib.Data.List.Chain

/-!
# Url templates between their placeholders

A template is literal text with the names of placeholders in it. There is one way to take it apart
such that each name is as long as it can be and no placeholder is left in the literal texts.

* `Split`: literal texts with names between them, and what it looks like in a notation;
* `Split.Cuts`: how a template is to be taken apart;
* `Split.Cuts.cut_eq`, `Split.cuts_ofPieces`: it is taken apart like this, in no other way;
* `pieces_eq`, `flatMap_source_pieces`: the pieces of a template;
* `documentPath_of_plain`: a template without placeholders is its own path.
-/

namespace ApiSurface.Route

open ApiSurface.Text

/-- No placeholder begins in a text: behind no colon stands the first character of a name. -/
def Plain (cs : List Char) : Prop := cs.IsChain fun a b => a = ':' → isIdentStart b = false

theorem plain_cons_iff {c : Char} {cs : List Char} :
    Plain (c :: cs) ↔ (c = ':' → ∀ d ∈ cs.head?, isIdentStart d = false) ∧ Plain cs := by
  unfold Plain
  rw [List.isChain_cons]
  exact and_congr_left' ⟨fun h hc d hd => h d hd hc, fun h d hd hc => h hc d hd⟩

theorem plain_append {l r : List Char} (hl : Plain l) (hr : Plain r)
    (h : ∀ c ∈ r.head?, isIdentStart c = false) : Plain (l ++ r) :=
  List.isChain_append.mpr ⟨hl, hr, fun _ _ d hd _ => h d hd⟩

theorem plain_of_notMem {cs : List Char} (h : ':' ∉ cs) : Plain cs := by
  induction cs with
  | nil => exact .nil
  | cons c cs ih =>
    rw [List.mem_cons, not_or] at h
    exact plain_cons_iff.mpr ⟨fun hc => absurd hc.symm h.1, ih h.2⟩

/-- What a piece looks like in a notation for literal characters and one for names. -/
def Piece.written (literal : Char → List Char) (field : List Char → List Char) : Piece → List Char
  | .literal c => literal c
  | .field name => field name

/-- Literal texts with the names of placeholders between them: the first text, and each name with
the text behind it. -/
structure Split where
  first : List Char
  later : List (List Char × List Char)
deriving DecidableEq

namespace Split

/-- What is taken apart looks like in a notation for literal texts and one for names. -/
def written (literal field : List Char → List Char) (s : Split) : List Char :=
  literal s.first ++ s.later.flatMap fun p => field p.1 ++ literal p.2

/-- The template that is taken apart. -/
def source (s : Split) : List Char := s.written id (':' :: ·)

/-- The pieces of a template that is taken apart. -/
def pieces (s : Split) : List Piece :=
  s.first.map .literal ++ s.later.flatMap fun p => .field p.1 :: p.2.map .literal

/-- Literal characters in a row make one literal text. -/
def ofPieces : List Piece → Split
  | [] => ⟨[], []⟩
  | .literal c :: ps => ⟨c :: (ofPieces ps).first, (ofPieces ps).later⟩
  | .field name :: ps => ⟨[], (name, (ofPieces ps).first) :: (ofPieces ps).later⟩

/-- **How a template is to be taken apart**: no placeholder is left in the literal texts, and each
name is an identifier that does not go on behind its end. -/
structure Cuts (s : Split) (cs : List Char) : Prop where
  source : s.source = cs
  first : Plain s.first
  later : ∀ p ∈ s.later, isIdentifier (String.ofList p.1) = true ∧
    (∀ c ∈ p.2.head?, isIdentPart c = false) ∧ Plain p.2

/-! ## Pieces -/

theorem ofPieces_append_literal (cs : List Char) (ps : List Piece) :
    ofPieces (cs.map .literal ++ ps) = ⟨cs ++ (ofPieces ps).first, (ofPieces ps).later⟩ := by
  induction cs with
  | nil => rfl
  | cons c cs ih => rw [List.map_cons, List.cons_append, ofPieces, ih, List.cons_append]

theorem ofPieces_pieces (s : Split) : ofPieces s.pieces = s := by
  obtain ⟨first, later⟩ := s
  unfold pieces
  rw [ofPieces_append_literal]
  induction later generalizing first with
  | nil => simp [ofPieces]
  | cons p later ih =>
    have htail := ih p.2
    rw [Split.mk.injEq] at htail
    rw [List.flatMap_cons, List.cons_append, ofPieces, ofPieces_append_literal]
    simp only [htail.1, htail.2, List.append_nil]

/-- What its pieces look like in a notation, a template looks like. -/
theorem flatMap_pieces (literal : Char → List Char) (field : List Char → List Char) (s : Split) :
    s.pieces.flatMap (Piece.written literal field) = s.written (·.flatMap literal) field := by
  unfold pieces written
  rw [List.flatMap_append, List.flatMap_map]
  congr 1
  induction s.later with
  | nil => rfl
  | cons p later ih =>
    simp only [List.flatMap_cons, List.flatMap_append, List.cons_append, List.flatMap_map, ih,
      List.append_assoc, Piece.written]

/-- The same in a notation that leaves literal texts as they are. -/
theorem flatMap_pieces_id (field : List Char → List Char) (s : Split) :
    s.pieces.flatMap (Piece.written (fun c => [c]) field) = s.written id field := by
  rw [flatMap_pieces]
  simp only [List.flatMap_singleton']
  rfl

end Split

/-! ## Cutting -/

theorem isIdentifier_ofList_cons (c : Char) (cs : List Char) :
    isIdentifier (String.ofList (c :: cs)) = (isIdentStart c && cs.all isIdentPart) := by
  unfold isIdentifier
  rw [String.toList_ofList]

theorem cut_eq_drop (skip : Nat) (cs : List Char) : cut skip cs = cut 0 (cs.drop skip) := by
  induction cs generalizing skip with
  | nil => rw [List.drop_nil, cut, cut]
  | cons c cs ih =>
    cases skip with
    | zero => rfl
    | succ skip => rw [cut, ih, List.drop_succ_cons]

/-- What is left behind the longest name. -/
theorem drop_takeWhile (cs : List Char) :
    cs.drop (cs.takeWhile isIdentPart).length = cs.dropWhile isIdentPart := by
  have hleft : (cs.takeWhile isIdentPart ++ cs.dropWhile isIdentPart).drop
      (cs.takeWhile isIdentPart).length = cs.dropWhile isIdentPart := List.drop_left
  rwa [List.takeWhile_append_dropWhile] at hleft

theorem cut_literal {c : Char} {cs : List Char}
    (h : c = ':' → ∀ d ∈ cs.head?, isIdentStart d = false) :
    cut 0 (c :: cs) = .literal c :: cut 0 cs := by
  by_cases hc : c = ':'
  · subst hc
    cases cs with
    | nil => simp [cut]
    | cons d cs => rw [cut, if_neg (by simpa using h rfl d rfl)]
  · rw [cut]
    exact fun _ _ hcolon _ => hc hcolon

/-- A text without placeholders is literal, up to what follows it. -/
theorem cut_plain {l r : List Char} (hl : Plain l) (hr : ∀ c ∈ r.head?, isIdentStart c = false) :
    cut 0 (l ++ r) = l.map .literal ++ cut 0 r := by
  induction l with
  | nil => rfl
  | cons c l ih =>
    obtain ⟨hc, hl⟩ := plain_cons_iff.mp hl
    rw [List.cons_append, cut_literal, ih hl, List.map_cons, List.cons_append]
    intro hcolon d hd
    cases l with
    | nil => exact hr d hd
    | cons e l => exact hc hcolon d hd

/-- A colon and an identifier that does not go on are a placeholder. -/
theorem cut_field {f r : List Char} (hf : isIdentifier (String.ofList f) = true)
    (hr : ∀ c ∈ r.head?, isIdentPart c = false) :
    cut 0 (':' :: (f ++ r)) = .field f :: cut 0 r := by
  obtain ⟨c, cs, hname, hc, hcs⟩ := exists_isIdentifier hf
  rw [String.toList_ofList] at hname
  have hrest : r.takeWhile isIdentPart = [] := by
    cases r with
    | nil => rfl
    | cons d r => rw [List.takeWhile_cons, if_neg (by simpa using hr d rfl)]
  have htake : (cs ++ r).takeWhile isIdentPart = cs := by
    rw [List.takeWhile_append_of_pos (List.all_eq_true.mp hcs), hrest, List.append_nil]
  rw [hname, List.cons_append, cut, if_pos hc, htake, cut_eq_drop, List.drop_succ_cons,
    List.drop_left]

/-- The text behind a literal text, from the first placeholder on. -/
def placeholders (later : List (List Char × List Char)) : List Char :=
  later.flatMap fun p => (':' :: p.1) ++ p.2

theorem eq_of_mem_head?_flatMap {α : Type} {later : List α} {b : Char} {g : α → List Char} :
    ∀ c ∈ (later.flatMap fun p => b :: g p).head?, c = b := by
  cases later with
  | nil => exact nofun
  | cons p later =>
    rintro c ⟨⟩
    rfl

theorem head?_placeholders {later : List (List Char × List Char)} :
    ∀ c ∈ (placeholders later).head?, c = ':' :=
  eq_of_mem_head?_flatMap

theorem cut_placeholders {later : List (List Char × List Char)}
    (h : ∀ p ∈ later, isIdentifier (String.ofList p.1) = true ∧
      (∀ c ∈ p.2.head?, isIdentPart c = false) ∧ Plain p.2) :
    cut 0 (placeholders later) = later.flatMap fun p => .field p.1 :: p.2.map .literal := by
  induction later with
  | nil => simp [placeholders, cut]
  | cons p later ih =>
    obtain ⟨⟨hname, hend, hplain⟩, hlater⟩ := List.forall_mem_cons.mp h
    have hstart : ∀ c ∈ (placeholders later).head?, isIdentStart c = false := by
      intro c hc
      rw [head?_placeholders c hc]
      decide
    have hrest : ∀ c ∈ (p.2 ++ placeholders later).head?, isIdentPart c = false := by
      intro c hc
      rw [List.head?_append, Option.mem_def, Option.or_eq_some_iff] at hc
      rcases hc with hc | ⟨-, hc⟩
      · exact hend c hc
      · rw [head?_placeholders c hc]
        decide
    rw [placeholders, List.flatMap_cons, List.flatMap_cons, ← placeholders, List.cons_append,
      List.cons_append, List.append_assoc, cut_field hname hrest, cut_plain hplain hstart,
      ih hlater, List.cons_append]

namespace Split

variable {s : Split} {cs : List Char}

theorem source_eq (s : Split) : s.source = s.first ++ placeholders s.later := rfl

/-- **A template is cut as it is to be taken apart.** -/
theorem Cuts.cut_eq (h : s.Cuts cs) : cut 0 cs = s.pieces := by
  rw [← h.source, source_eq, cut_plain h.first, cut_placeholders h.later]
  · rfl
  · intro c hc
    rw [head?_placeholders c hc]
    decide

/-- There is no other way to take a template apart. -/
theorem Cuts.eq_ofPieces (h : s.Cuts cs) : s = ofPieces (cut 0 cs) := by
  rw [h.cut_eq, ofPieces_pieces]

/-- The first literal text begins with the template. -/
theorem Cuts.head?_first (h : s.Cuts cs) : ∀ c ∈ s.first.head?, c ∈ cs.head? := by
  intro c hc
  rw [← h.source, source_eq, List.head?_append, hc]
  rfl

theorem Cuts.cons_literal (h : s.Cuts cs) {c : Char}
    (hc : c = ':' → ∀ d ∈ cs.head?, isIdentStart d = false) :
    Cuts ⟨c :: s.first, s.later⟩ (c :: cs) where
  source := congrArg (c :: ·) h.source
  first := plain_cons_iff.mpr ⟨fun hcolon d hd => hc hcolon d (h.head?_first d hd), h.first⟩
  later := h.later

theorem Cuts.cons_field (h : s.Cuts cs) {f : List Char}
    (hf : isIdentifier (String.ofList f) = true) (hcs : ∀ c ∈ cs.head?, isIdentPart c = false) :
    Cuts ⟨[], (f, s.first) :: s.later⟩ (':' :: (f ++ cs)) where
  source := by
    rw [source_eq, placeholders, List.flatMap_cons, ← placeholders, List.append_assoc,
      ← source_eq, h.source]
    rfl
  first := List.IsChain.nil
  later := List.forall_mem_cons.mpr
    ⟨⟨hf, fun c hc => hcs c (h.head?_first c hc), h.first⟩, h.later⟩

/-- **What is cut is taken apart as it should be.** -/
theorem cuts_ofPieces (skip : Nat) (cs : List Char) :
    (ofPieces (cut skip cs)).Cuts (cs.drop skip) := by
  fun_induction cut skip cs with
  | case1 skip =>
    rw [List.drop_nil]
    exact ⟨rfl, .nil, nofun⟩
  | case2 skip c cs ih => exact ih
  | case3 c cs hstart ih =>
    have hsplit := List.takeWhile_append_dropWhile (p := isIdentPart) (l := cs)
    have hname : isIdentifier (String.ofList (c :: cs.takeWhile isIdentPart)) = true := by
      rw [isIdentifier_ofList_cons, hstart, List.all_takeWhile]
      rfl
    -- the longest name was taken, so that it cannot go on behind its end
    have hend : ∀ d ∈ (cs.dropWhile isIdentPart).head?, isIdentPart d = false := by
      intro d hd
      have hnot := List.head?_dropWhile_not isIdentPart cs
      rwa [hd] at hnot
    rw [List.drop_succ_cons, drop_takeWhile] at ih
    have hcuts := ih.cons_field hname hend
    rwa [List.cons_append, hsplit] at hcuts
  | case4 c cs hstart ih =>
    refine ih.cons_literal fun _ d hd => ?_
    rw [← Option.some.inj hd]
    exact Bool.eq_false_iff.mpr hstart
  | case5 c cs hcolon ih =>
    refine ih.cons_literal fun hc d hd => ?_
    obtain ⟨r, rfl⟩ := List.head?_eq_some_iff.mp hd
    exact absurd rfl (hcolon d r hc)

end Split

/-- There is a way to take a template apart. -/
theorem exists_cuts (t : String) : ∃ s : Split, s.Cuts t.toList := ⟨_, Split.cuts_ofPieces 0 t.toList⟩

theorem pieces_eq {s : Split} {t : String} (h : s.Cuts t.toList) : pieces t = s.pieces := h.cut_eq

/-- The pieces of a template hold all of its text. -/
theorem flatMap_source_pieces (t : String) : (pieces t).flatMap Piece.source = t.toList := by
  obtain ⟨s, hs⟩ := exists_cuts t
  have hpiece : Piece.source = Piece.written (fun c => [c]) (':' :: ·) := by
    funext p
    cases p <;> rfl
  rw [pieces_eq hs, hpiece, Split.flatMap_pieces_id]
  exact hs.source

theorem isIdentifier_of_mem_pieces {t : String} {f : List Char} (h : .field f ∈ pieces t) :
    isIdentifier (String.ofList f) = true := by
  obtain ⟨s, hs⟩ := exists_cuts t
  rw [pieces_eq hs, Split.pieces, List.mem_append, List.mem_flatMap] at h
  rcases h with h | ⟨p, hp, h⟩
  · obtain ⟨c, -, hc⟩ := List.mem_map.mp h
    cases hc
  · rcases List.mem_cons.mp h with h | h
    · cases h
      exact (hs.later p hp).1
    · obtain ⟨c, -, hc⟩ := List.mem_map.mp h
      cases hc

/-- **A template without placeholders is its own path.** -/
theorem documentPath_of_plain {template : String} (h : Plain template.toList) :
    documentPath template = template := by
  have hcut := cut_plain (r := []) h nofun
  rw [List.append_nil, cut, List.append_nil] at hcut
  unfold documentPath pieces
  rw [hcut, List.flatMap_map]
  simp only [Piece.documented, List.flatMap_singleton', String.ofList_toList]

end ApiSurface.Route
