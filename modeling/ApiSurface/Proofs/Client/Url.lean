import ApiSurface.Client.Function
import ApiSurface.Proofs.Route.Placeholders

/-!
# One template in two notations

A client puts parameters into a url template whose backticks it has escaped, a document puts braces
around the names in the template itself. Both find the same placeholders.

* `Route.Split.Cuts.ticked`: escaping backticks moves no placeholder;
* `templateLiteral_eq`, `documentPath_eq`: what both notations make of a split;
* `plain_documented`: no placeholder is left in the notation of documents;
* **`exists_common_split`**: both notations, and the template, of one split.
-/

namespace ApiSurface

open ApiSurface.Client ApiSurface.Route ApiSurface.Text

/-! ## Delimiters -/

namespace Client

theorem delimiter_cases (q : QuoteStyle) : q.delimiter = '"' ∨ q.delimiter = '\'' := by
  cases q
  · exact Or.inl rfl
  · exact Or.inr rfl

/-! ## Escaped backticks -/

theorem escapeTicks_append (a b : List Char) :
    escapeTicks (a ++ b) = escapeTicks a ++ escapeTicks b :=
  List.flatMap_append

theorem escapeTicks_tick (cs : List Char) : escapeTicks ('`' :: cs) = '\\' :: '`' :: escapeTicks cs :=
  rfl

theorem escapeTicks_cons {c : Char} (hc : c ≠ '`') (cs : List Char) :
    escapeTicks (c :: cs) = c :: escapeTicks cs := by
  rw [escapeTicks, List.flatMap_cons, tick, if_neg hc, List.singleton_append, ← escapeTicks]

theorem escapeTicks_of_notMem {cs : List Char} (h : '`' ∉ cs) : escapeTicks cs = cs := by
  induction cs with
  | nil => rfl
  | cons c cs ih =>
    rw [List.mem_cons, not_or] at h
    rw [escapeTicks_cons (Ne.symm h.1), ih h.2]

theorem head?_escapeTicks {cs : List Char} :
    ∀ c ∈ (escapeTicks cs).head?, c = '\\' ∨ c ∈ cs.head? := by
  intro c hc
  cases cs with
  | nil => cases hc
  | cons d cs =>
    by_cases hd : d = '`'
    · rw [hd, escapeTicks_tick] at hc
      exact Or.inl (Option.some.inj hc).symm
    · rw [escapeTicks_cons hd] at hc
      exact Or.inr hc

theorem plain_escapeTicks {cs : List Char} (h : Plain cs) : Plain (escapeTicks cs) := by
  induction cs with
  | nil => exact h
  | cons c cs ih =>
    obtain ⟨hc, hcs⟩ := plain_cons_iff.mp h
    by_cases htick : c = '`'
    · rw [htick, escapeTicks_tick]
      exact plain_cons_iff.mpr ⟨nofun, plain_cons_iff.mpr ⟨nofun, ih hcs⟩⟩
    · rw [escapeTicks_cons htick]
      refine plain_cons_iff.mpr ⟨fun hcolon d hd => ?_, ih hcs⟩
      rcases head?_escapeTicks d hd with rfl | hd
      · decide
      · exact hc hcolon d hd

end Client

/-! ## The split of an escaped template -/

theorem Text.not_mem_of_isIdentifier {f : List Char} {c : Char}
    (hf : isIdentifier (String.ofList f) = true) (hc : isIdentPart c = false)
    (hstart : isIdentStart c = false) : c ∉ f := by
  intro hmem
  have hall := all_of_isIdentifier (p := (· != c)) hf
    (fun d hd => by
      rw [bne_iff_ne]
      rintro rfl
      rw [hstart] at hd
      cases hd)
    (fun d hd => by
      rw [bne_iff_ne]
      rintro rfl
      rw [hc] at hd
      cases hd)
  rw [String.toList_ofList] at hall
  simpa using List.all_eq_true.mp hall c hmem

namespace Route.Split

variable {s : Split} {cs : List Char}

/-- The literal texts with their backticks escaped, and the same names. -/
def ticked (s : Split) : Split :=
  ⟨escapeTicks s.first, s.later.map fun p => (p.1, escapeTicks p.2)⟩

theorem written_ticked (s : Split) (field : List Char → List Char) :
    s.ticked.written id field = s.written escapeTicks field := by
  unfold ticked written
  rw [List.flatMap_map]
  rfl

/-- **Escaping backticks moves no placeholder.** -/
theorem Cuts.ticked (h : s.Cuts cs) : s.ticked.Cuts (escapeTicks cs) where
  source := by
    have hlater : ∀ later : List (List Char × List Char),
        (∀ p ∈ later, isIdentifier (String.ofList p.1) = true) →
        escapeTicks (placeholders later) =
          later.flatMap fun p => (':' :: p.1) ++ escapeTicks p.2 := by
      intro later hnames
      induction later with
      | nil => rfl
      | cons p later ih =>
        obtain ⟨hname, hnames⟩ := List.forall_mem_cons.mp hnames
        have htick : '`' ∉ ':' :: p.1 := by
          rw [List.mem_cons, not_or]
          exact ⟨by decide, not_mem_of_isIdentifier hname (by decide) (by decide)⟩
        rw [placeholders, List.flatMap_cons, ← placeholders, escapeTicks_append,
          escapeTicks_append, escapeTicks_of_notMem htick, ih hnames, List.flatMap_cons]
    rw [Split.source, written_ticked, written, ← hlater _ fun p hp => (h.later p hp).1,
      ← escapeTicks_append, ← source_eq, h.source]
  first := plain_escapeTicks h.first
  later := by
    intro p hp
    obtain ⟨p, hmem, rfl⟩ := List.mem_map.mp hp
    obtain ⟨hname, hend, hplain⟩ := h.later p hmem
    refine ⟨hname, fun c hc => ?_, plain_escapeTicks hplain⟩
    rcases head?_escapeTicks c hc with rfl | hc
    · decide
    · exact hend c hc

end Route.Split

/-! ## Both notations -/

variable {s : Split}

theorem pieces_tickedTemplate {t : String} (h : s.Cuts t.toList) :
    pieces (tickedTemplate t) = s.ticked.pieces := by
  unfold tickedTemplate
  exact pieces_eq (by rw [String.toList_ofList]; exact h.ticked)

/-- A name in the notation of documents. -/
def braced (f : List Char) : List Char := '\x7b' :: (f ++ ['\x7d'])

theorem documentPath_eq {t : String} (h : s.Cuts t.toList) :
    documentPath t = String.ofList (s.written id braced) := by
  have hpiece : Piece.documented = Piece.written (fun c => [c]) braced := by
    funext p
    cases p <;> rfl
  unfold documentPath
  rw [pieces_eq h, hpiece, Split.flatMap_pieces_id]

/-- A placeholder between backticks: the parameter of the first binding of its name, or the
placeholder itself if there is none. -/
def interpolated (params : List FieldBinding) (f : List Char) : List Char :=
  (params.find? fun p => p.property = String.ofList f).elim (':' :: f) fun p =>
    '$' :: '\x7b' :: (p.parameter.name.toList ++ ['\x7d'])

theorem templateLiteral_eq (params : List FieldBinding) {t : String} (h : s.Cuts t.toList) :
    templateLiteral params t =
      String.ofList ('`' :: (s.written escapeTicks (interpolated params) ++ ['`'])) := by
  have hpiece : templatePiece params = Piece.written (fun c => [c]) (interpolated params) := by
    funext p
    cases p with
    | literal c => rfl
    | field name =>
      unfold templatePiece interpolated Piece.written
      dsimp only
      cases params.find? fun p => p.property = String.ofList name <;> rfl
  unfold templateLiteral
  rw [pieces_tickedTemplate h, hpiece, Split.flatMap_pieces_id, Split.written_ticked]

/-- The same piece by piece. -/
theorem templateLiteral_eq_flatMap (params : List FieldBinding) (t : String) :
    templateLiteral params t = String.ofList
      ('`' :: ((pieces t).flatMap (Piece.written tick (interpolated params)) ++ ['`'])) := by
  obtain ⟨s, hs⟩ := exists_cuts t
  rw [templateLiteral_eq params hs, pieces_eq hs, Split.flatMap_pieces]
  rfl

theorem head?_braced {later : List (List Char × List Char)} :
    ∀ c ∈ (later.flatMap fun p => braced p.1 ++ p.2).head?, c = '\x7b' :=
  eq_of_mem_head?_flatMap

/-- No placeholder begins at a brace, in the name behind it or in the literal text behind that. -/
theorem plain_braced {later : List (List Char × List Char)}
    (h : ∀ p ∈ later, isIdentifier (String.ofList p.1) = true ∧ Plain p.2) :
    Plain (later.flatMap fun p => braced p.1 ++ p.2) := by
  induction later with
  | nil => exact .nil
  | cons p later ih =>
    obtain ⟨⟨hname, hplain⟩, hlater⟩ := List.forall_mem_cons.mp h
    have hcolon : ':' ∉ p.1 := not_mem_of_isIdentifier hname (by decide) (by decide)
    have hrest : Plain (p.2 ++ later.flatMap fun p => braced p.1 ++ p.2) := by
      refine plain_append hplain (ih hlater) fun c hc => ?_
      rw [head?_braced c hc]
      decide
    have hclose : Plain ('\x7d' :: (p.2 ++ later.flatMap fun p => braced p.1 ++ p.2)) :=
      plain_cons_iff.mpr ⟨fun h => absurd h (by decide), hrest⟩
    rw [List.flatMap_cons, braced, List.append_assoc, List.cons_append, List.append_assoc]
    refine plain_cons_iff.mpr ⟨fun h => absurd h (by decide), ?_⟩
    refine plain_append (plain_of_notMem hcolon) hclose fun c hc => ?_
    cases hc
    decide

/-- **No placeholder is left in the notation of documents.** -/
theorem plain_documented {cs : List Char} (h : s.Cuts cs) : Plain (s.written id braced) := by
  refine plain_append h.first (plain_braced fun p hp => ?_) fun c hc => ?_
  · exact ⟨(h.later p hp).1, (h.later p hp).2.2⟩
  · rw [head?_braced c hc]
    decide

/-- **Both notations cut a url template at the same placeholders.** -/
theorem exists_common_split (t : String) :
    ∃ s : Split, (s.Cuts t.toList ∧ ∀ u : Split, u.Cuts t.toList → u = s) ∧
      documentPath t = String.ofList (s.written id braced) ∧
      (∀ (q : QuoteStyle) (r : Request) (p : FieldBinding) (ps : List FieldBinding),
        urlExpression q { r with template := t, params := p :: ps } =
          String.ofList ('`' :: (s.written escapeTicks (interpolated (p :: ps)) ++ ['`']))) ∧
      documentPath (documentPath t) = documentPath t := by
  obtain ⟨s, hs⟩ := exists_cuts t
  refine ⟨s, ⟨hs, fun u hu => hu.eq_ofPieces.trans hs.eq_ofPieces.symm⟩, documentPath_eq hs,
    fun q r p ps => templateLiteral_eq (p :: ps) hs, documentPath_of_plain ?_⟩
  rw [documentPath_eq hs, String.toList_ofList]
  exact plain_documented hs

end ApiSurface
