import ApiSurface.Proofs.Client.Literal
import ApiSurface.Proofs.Client.Url
import Mathlib.Data.List.Infix

/-!
# The value of an emitted url

The literal of a url should stand for the url itself: the template, with the values of parameters in
the places of the placeholders. Between quotes it does unless the template has a line break. Between
backticks only backticks are escaped, so that a backslash takes what follows it along, `$` with a
brace opens an expression, and a carriage return becomes a line feed.

* `UrlPart`, `Request.urlParts`, `Request.url`: the url of a request;
* `Request.Verbatim`: nothing in a url has a meaning of its own in its literal;
* `literalFrom_text`: then its literal stands for the url;
* `slash_notMem_of_literalFrom`, `unmarked_of_literalFrom`: otherwise, for some values, it does not;
* **`evaluate_urlExpression_iff`**: when the literal of a url stands for the url.
-/

namespace ApiSurface

open ApiSurface.Client ApiSurface.Route ApiSurface.Text

/-! ## Urls -/

/-- What stands at a place of a url: a character of its template, or the value of a parameter. -/
inductive UrlPart
  | char (c : Char)
  | value (parameter : String)
deriving DecidableEq, Repr

/-- The code units of a part of a url, given the values of parameters. -/
def UrlPart.units (values : String → List Nat) : UrlPart → List Nat
  | char c => codeUnits c.toNat
  | value n => values n

/-- A part of a url as it is written between backticks. -/
def UrlPart.text : UrlPart → List Char
  | char c => tick c
  | value n => '$' :: '\x7b' :: (n.toList ++ ['\x7d'])

/-- The parts of a url that a piece of its template stands for: the first parameter that is bound to
the name of a placeholder, or else the characters of the piece. -/
def partsOf (params : List FieldBinding) : Piece → List UrlPart
  | .literal c => [.char c]
  | .field f => (params.find? fun p => p.property = String.ofList f).elim ((':' :: f).map .char)
      fun p => [.value p.parameter.name]

/-- The parameters in a url have names. -/
def Named (ps : List UrlPart) : Prop := ∀ n, .value n ∈ ps → isName n.toList = true

/-- Nothing in a url has a meaning of its own between backticks: there is no backslash, no carriage
return and no dollar before a brace, outside the placeholders that values replace. -/
structure Unmarked (ps : List UrlPart) : Prop where
  slash : .char '\\' ∉ ps
  carriage : .char '\r' ∉ ps
  brace : ¬ [.char '$', .char '\x7b'] <:+: ps

namespace Request

/-- The parts of the url of a request. -/
def urlParts (r : Request) : List UrlPart := (pieces r.template).flatMap (partsOf r.params)

/-- The url of a request, given the values of its parameters. -/
def url (values : String → List Nat) (r : Request) : List Nat :=
  r.urlParts.flatMap (UrlPart.units values)

/-- Nothing in the url of a request has a meaning of its own in its literal. Without path parameters
it is in quotes, where only line breaks have. -/
structure Verbatim (r : Request) : Prop where
  quoted : r.params = [] → '\n' ∉ r.template.toList ∧ '\r' ∉ r.template.toList
  between : r.params ≠ [] → Unmarked r.urlParts

end Request

/-! ## The literal of a url, part by part -/

theorem templateLiteral_eq_text (r : Request) : templateLiteral r.params r.template =
    String.ofList ('`' :: (r.urlParts.flatMap UrlPart.text ++ ['`'])) := by
  have hpiece : ∀ p ∈ pieces r.template, Piece.written tick (interpolated r.params) p =
      (partsOf r.params p).flatMap UrlPart.text := by
    intro p hp
    cases p with
    | literal c => exact (List.flatMap_singleton _ _).symm
    | field f =>
      have htick : '`' ∉ ':' :: f := by
        rw [List.mem_cons, not_or]
        exact ⟨by decide, not_mem_of_isIdentifier (isIdentifier_of_mem_pieces hp) (by decide)
          (by decide)⟩
      unfold Piece.written interpolated partsOf
      dsimp only
      cases r.params.find? fun p => p.property = String.ofList f with
      | none =>
        rw [Option.elim_none, Option.elim_none, List.flatMap_map]
        exact (escapeTicks_of_notMem htick).symm
      | some p => exact (List.flatMap_singleton _ _).symm
  rw [templateLiteral_eq_flatMap, Request.urlParts, List.flatMap_assoc, List.flatMap_congr hpiece]

/-- Without path parameters a url is its template. -/
theorem url_of_params_eq_nil {r : Request} (h : r.params = []) (values : String → List Nat) :
    r.url values = units r.template.toList := by
  have hpiece : ∀ p : Piece, partsOf r.params p = p.source.map .char := by
    intro p
    rw [h]
    cases p <;> rfl
  rw [Request.url, Request.urlParts, List.flatMap_assoc, ← flatMap_source_pieces, units,
    List.flatMap_assoc]
  refine List.flatMap_congr fun p _ => ?_
  rw [hpiece, List.flatMap_map]
  rfl

/-! ## Between backticks -/

theorem unmarked_cons_iff {p : UrlPart} {ps : List UrlPart} : Unmarked (p :: ps) ↔
    (p ≠ .char '\\' ∧ p ≠ .char '\r' ∧ (p = .char '$' → ps.head? ≠ some (.char '\x7b'))) ∧
      Unmarked ps := by
  have hpair : ¬ [.char '$', .char '\x7b'] <:+: p :: ps ↔
      (p = .char '$' → ps.head? ≠ some (.char '\x7b')) ∧
        ¬ [.char '$', .char '\x7b'] <:+: ps := by
    rw [List.infix_cons_iff, List.cons_prefix_cons, List.singleton_prefix_iff_head?_eq_some, not_or,
      not_and, eq_comm]
  constructor
  · rintro ⟨hslash, hreturn, hbrace⟩
    rw [List.mem_cons, not_or] at hslash hreturn
    rw [hpair] at hbrace
    exact ⟨⟨Ne.symm hslash.1, Ne.symm hreturn.1, hbrace.1⟩, hslash.2, hreturn.2, hbrace.2⟩
  · rintro ⟨⟨hslash, hreturn, hbrace⟩, h⟩
    refine ⟨?_, ?_, hpair.mpr ⟨hbrace, h.brace⟩⟩
    · rw [List.mem_cons, not_or]
      exact ⟨Ne.symm hslash, h.slash⟩
    · rw [List.mem_cons, not_or]
      exact ⟨Ne.symm hreturn, h.carriage⟩

theorem head?_text_eq_brace_iff (ps : List UrlPart) :
    (ps.flatMap UrlPart.text ++ ['`']).head? = some '\x7b' ↔ ps.head? = some (.char '\x7b') := by
  cases ps with
  | nil => exact iff_of_false (by decide) (by decide)
  | cons p ps =>
    cases p with
    | value n => simp [UrlPart.text]
    | char c =>
      rw [List.flatMap_cons, UrlPart.text, tick, List.head?_cons]
      split_ifs with htick
      · rw [htick]
        exact iff_of_false (by simp) (by simp)
      · rw [List.append_assoc, List.singleton_append, List.head?_cons, Option.some_inj,
          Option.some_inj, UrlPart.char.injEq]

theorem Named.tail {p : UrlPart} {ps : List UrlPart} (h : Named (p :: ps)) : Named ps :=
  fun n hn => h n (List.mem_cons_of_mem p hn)

/-! ## Reading parts -/

variable {values : String → List Nat} {ps : List UrlPart} {rest : List Char}

theorem unit?_between {c : Char} {cs : List Char} (hslash : c ≠ '\\') (hreturn : c ≠ '\r')
    (hbrace : ¬ (c = '$' ∧ cs.head? = some '\x7b')) :
    unit? values '`' c cs = some (codeUnits c.toNat, 0) := by
  unfold unit?
  rw [if_neg hslash, if_pos rfl]
  split
  · exact absurd ⟨rfl, rfl⟩ hbrace
  · exact absurd rfl hreturn
  · exact absurd rfl hreturn
  · rfl

/-- A character without a meaning of its own is read as itself. -/
theorem literalFrom_char {c : Char} (hslash : c ≠ '\\') (hreturn : c ≠ '\r')
    (hbrace : ¬ (c = '$' ∧ rest.head? = some '\x7b')) :
    literalFrom values '`' 0 (tick c ++ rest) =
      (literalFrom values '`' 0 rest).map (codeUnits c.toNat ++ ·) := by
  unfold tick
  split_ifs with htick
  · subst htick
    have hunit : unit? values '`' '\\' ('`' :: rest) = some (codeUnits '`'.toNat, 1) :=
      unit?_escaped (by decide)
    exact literalFrom_of_unit? (by decide) hunit
  · exact literalFrom_of_unit? htick (unit?_between hslash hreturn hbrace)

/-- A name in braces is read as its value. -/
theorem literalFrom_value {n : String} (hn : isName n.toList = true) :
    literalFrom values '`' 0 ((UrlPart.value n).text ++ rest) =
      (literalFrom values '`' 0 rest).map (values n ++ ·) := by
  have htake : (n.toList ++ '\x7d' :: rest).takeWhile isNameChar = n.toList := by
    rw [List.takeWhile_append_of_pos (forall_isNameChar hn), List.takeWhile_cons,
      if_neg (by decide), List.append_nil]
  have hunit : unit? values '`' '$' ('\x7b' :: (n.toList ++ '\x7d' :: rest)) =
      some (values n, n.toList.length + 2) := by
    change (substitution? values (n.toList ++ '\x7d' :: rest)).map _ = _
    simp only [substitution?, htake, hn, List.drop_left, String.ofList_toList]
    rfl
  have hdrop : (n.toList ++ '\x7d' :: rest).drop (n.toList.length + 1) = rest := by
    rw [List.drop_length_add_append]
    rfl
  have htext : (UrlPart.value n).text ++ rest = '$' :: '\x7b' :: (n.toList ++ '\x7d' :: rest) := by
    simp [UrlPart.text]
  rw [htext, literalFrom_of_unit? (by decide) hunit, List.drop_succ_cons, hdrop]

/-- **The literal of a url in which nothing has a meaning of its own stands for the url.** -/
theorem literalFrom_text (hnames : Named ps) (h : Unmarked ps) :
    literalFrom values '`' 0 (ps.flatMap UrlPart.text ++ ['`']) =
      some (ps.flatMap (UrlPart.units values)) := by
  induction ps with
  | nil => exact literalFrom_delimiter
  | cons p ps ih =>
    obtain ⟨⟨hslash, hreturn, hbrace⟩, hps⟩ := unmarked_cons_iff.mp h
    rw [List.flatMap_cons, List.append_assoc, List.flatMap_cons]
    cases p with
    | value n =>
      rw [literalFrom_value (hnames n List.mem_cons_self), ih hnames.tail hps]
      rfl
    | char c =>
      rw [Ne, UrlPart.char.injEq] at hslash hreturn
      rw [UrlPart.char.injEq, Ne, ← head?_text_eq_brace_iff] at hbrace
      rw [UrlPart.text, literalFrom_char hslash hreturn fun hc => hbrace hc.1 hc.2,
        ih hnames.tail hps]
      rfl

/-! ## Marks that are read -/

/-- What is written has just the room for the url, but one too little for each backslash. -/
theorem rooms_text (hnames : Named ps) :
    rooms (ps.flatMap UrlPart.text) + ps.count (.char '\\') =
      weight (ps.flatMap (UrlPart.units spelt)) := by
  induction ps with
  | nil => rfl
  | cons p ps ih =>
    have hpart : rooms p.text + [p].count (.char '\\') = weight (p.units spelt) := by
      cases p with
      | value n => exact (weight_spelt (hnames n List.mem_cons_self)).symm
      | char c =>
        by_cases hslash : c = '\\'
        · rw [hslash]
          decide
        · by_cases htick : c = '`'
          · rw [htick]
            decide
          · have hcount : [UrlPart.char c].count (.char '\\') = 0 := by
              rw [List.count_eq_zero, List.mem_singleton, UrlPart.char.injEq]
              exact Ne.symm hslash
            rw [hcount, UrlPart.units, weight_codeUnits_toNat hslash htick, UrlPart.text, tick,
              if_neg htick]
            rfl
    rw [List.flatMap_cons, List.flatMap_cons, rooms_append, weight_append, ← ih hnames.tail,
      ← hpart, ← List.singleton_append, List.count_append]
    omega

/-- A backslash is not read as itself: there is no room for that. -/
theorem slash_notMem_of_literalFrom (hnames : Named ps)
    (h : literalFrom spelt '`' 0 (ps.flatMap UrlPart.text ++ ['`']) =
      some (ps.flatMap (UrlPart.units spelt))) : .char '\\' ∉ ps := by
  have hread := weight_le_of_literalFrom h
  rw [List.drop_zero, rooms_append, ← rooms_text hnames] at hread
  have hdelimiter : rooms ['`'] = 2 := by decide
  rw [← List.count_eq_zero]
  omega

theorem unit?_return (cs : List Char) : ∃ n, unit? values '`' '\r' cs = some ([0xA], n) := by
  unfold unit?
  rw [if_neg (by decide), if_pos rfl]
  split
  · rename_i hc
    cases hc
  · exact ⟨1, rfl⟩
  · exact ⟨0, rfl⟩
  · rename_i hreturn _ _
    exact absurd rfl hreturn

/-- A carriage return is read as a line feed. -/
theorem literalFrom_return_ne (cs : List Char) (w : List Nat) :
    literalFrom values '`' 0 ('\r' :: cs) ≠ some (codeUnits '\r'.toNat ++ w) := by
  intro h
  obtain ⟨n, hunit⟩ := @unit?_return values cs
  rw [literalFrom_of_unit? (by decide) hunit] at h
  obtain ⟨u, -, heq⟩ := Option.map_eq_some_iff.mp h
  exact absurd (List.cons.inj heq).1 (by decide)

theorem fst_of_unit?_brace {cs : List Char} {p : List Nat × Nat} {v : List Nat}
    (h : unit? (fun _ => v) '`' '$' ('\x7b' :: cs) = some p) : p.1 = v := by
  change (substitution? (fun _ => v) cs).map _ = _ at h
  obtain ⟨q, hq, rfl⟩ := Option.map_eq_some_iff.mp h
  unfold substitution? at hq
  dsimp only at hq
  split_ifs at hq
  cases hq
  rfl

/-- A name in braces behind a dollar is read as its value, which need not begin with a dollar. -/
theorem literalFrom_brace_ne (cs : List Char) (w : List Nat) :
    literalFrom (fun _ => [0]) '`' 0 ('$' :: '\x7b' :: cs) ≠ some (codeUnits '$'.toNat ++ w) := by
  intro h
  rw [literalFrom_cons (by decide)] at h
  obtain ⟨q, hunit, hrest⟩ := Option.bind_eq_some_iff.mp h
  obtain ⟨u, -, heq⟩ := Option.map_eq_some_iff.mp hrest
  rw [fst_of_unit?_brace hunit] at heq
  exact absurd (List.cons.inj heq).1 (by decide)

theorem eq_some_of_map_append {a : List Nat} {v : Option (List Nat)} {w : List Nat}
    (h : v.map (a ++ ·) = some (a ++ w)) : v = some w := by
  obtain ⟨u, rfl, heq⟩ := Option.map_eq_some_iff.mp h
  rw [List.append_cancel_left heq]

/-- Without backslashes, a literal that stands for its url has nothing else of a meaning of its own
in it. -/
theorem unmarked_of_literalFrom (hnames : Named ps) (hslash : .char '\\' ∉ ps)
    (h : literalFrom (fun _ => [0]) '`' 0 (ps.flatMap UrlPart.text ++ ['`']) =
      some (ps.flatMap (UrlPart.units fun _ => [0]))) : Unmarked ps := by
  induction ps with
  | nil => exact ⟨hslash, nofun, by simp⟩
  | cons p ps ih =>
    rw [List.flatMap_cons, List.append_assoc, List.flatMap_cons] at h
    rw [List.mem_cons, not_or] at hslash
    rw [unmarked_cons_iff]
    cases p with
    | value n =>
      rw [literalFrom_value (hnames n List.mem_cons_self)] at h
      exact ⟨⟨nofun, nofun, nofun⟩, ih hnames.tail hslash.2 (eq_some_of_map_append h)⟩
    | char c =>
      have hc : c ≠ '\\' := fun hc => hslash.1 (congrArg UrlPart.char hc.symm)
      have hreturn : c ≠ '\r' := by
        rintro rfl
        exact literalFrom_return_ne _ _ h
      have hbrace : ¬ (c = '$' ∧ (ps.flatMap UrlPart.text ++ ['`']).head? = some '\x7b') := by
        rintro ⟨rfl, hhead⟩
        obtain ⟨cs, hcs⟩ := List.head?_eq_some_iff.mp hhead
        rw [hcs] at h
        exact literalFrom_brace_ne _ _ h
      rw [UrlPart.text, literalFrom_char hc hreturn hbrace] at h
      refine ⟨⟨?_, ?_, ?_⟩, ih hnames.tail hslash.2 (eq_some_of_map_append h)⟩
      · exact fun heq => hc (UrlPart.char.inj heq)
      · exact fun heq => hreturn (UrlPart.char.inj heq)
      · rw [Ne, ← head?_text_eq_brace_iff]
        exact fun heq hhead => hbrace ⟨UrlPart.char.inj heq, hhead⟩

/-! ## The value of a url -/

theorem evaluate_ofList {d : Char} (hd : d = '"' ∨ d = '\'' ∨ d = '`') (cs : List Char) :
    evaluate values (String.ofList (d :: cs)) = literalFrom values d 0 cs := by
  unfold evaluate
  rw [String.toList_ofList]
  rcases hd with rfl | rfl | rfl <;> rfl

theorem Request.named_urlParts {r : Request}
    (h : ∀ p ∈ r.params, isName p.parameter.name.toList = true) : Named r.urlParts := by
  intro n hn
  obtain ⟨piece, -, hmem⟩ := List.mem_flatMap.mp hn
  cases piece with
  | literal c => cases List.mem_singleton.mp hmem
  | field f =>
    unfold partsOf at hmem
    dsimp only at hmem
    cases hp : r.params.find? fun p => p.property = String.ofList f with
    | none =>
      rw [hp] at hmem
      obtain ⟨c, -, hc⟩ := List.mem_map.mp hmem
      cases hc
    | some p =>
      rw [hp] at hmem
      cases List.mem_singleton.mp hmem
      exact h p (List.mem_of_find?_eq_some hp)

/-- Without path parameters a url is in quotes, in which it cannot have a line break. -/
theorem evaluate_quoted (q : QuoteStyle) {r : Request} (h : r.params = []) :
    evaluate values (urlExpression q r) =
      if '\n' ∈ r.template.toList ∨ '\r' ∈ r.template.toList then none else some (r.url values) := by
  have hdelimiter : q.delimiter = '"' ∨ q.delimiter = '\'' ∨ q.delimiter = '`' :=
    (delimiter_cases q).imp_right Or.inl
  rw [urlExpression, if_pos (List.isEmpty_iff.mpr h), QuoteStyle.quote, quoted,
    evaluate_ofList hdelimiter, literalFrom_escape (delimiter_cases q), url_of_params_eq_nil h]

/-- With path parameters a url is between backticks. -/
theorem evaluate_between (q : QuoteStyle) {r : Request} (h : r.params ≠ []) :
    evaluate values (urlExpression q r) =
      literalFrom values '`' 0 (r.urlParts.flatMap UrlPart.text ++ ['`']) := by
  rw [urlExpression, if_neg (mt List.isEmpty_iff.mp h), templateLiteral_eq_text,
    evaluate_ofList (Or.inr (Or.inr rfl))]

/-- **When the literal of a url stands for the url**, whatever the values of the parameters are. -/
theorem evaluate_urlExpression_iff (q : QuoteStyle) (r : Request)
    (h : ∀ p ∈ r.params, isName p.parameter.name.toList = true) :
    (∀ values, evaluate values (urlExpression q r) = some (r.url values)) ↔ r.Verbatim := by
  by_cases hparams : r.params = []
  · constructor
    · intro hvalue
      refine ⟨fun _ => ?_, fun hne => absurd hparams hne⟩
      have hread := hvalue fun _ => []
      rw [evaluate_quoted q hparams] at hread
      split_ifs at hread with hbreak
      exact not_or.mp hbreak
    · intro hverbatim values
      rw [evaluate_quoted q hparams, if_neg (not_or.mpr (hverbatim.quoted hparams))]
  · have hnames := Request.named_urlParts h
    constructor
    · intro hvalue
      have hread := fun values => (evaluate_between q hparams).symm.trans (hvalue values)
      have hslash := slash_notMem_of_literalFrom hnames (hread spelt)
      exact ⟨fun hnil => absurd hnil hparams,
        fun _ => unmarked_of_literalFrom hnames hslash (hread _)⟩
    · intro hverbatim values
      rw [evaluate_between q hparams, literalFrom_text hnames (hverbatim.between hparams)]
      rfl

/-- A request whose url ends in an identifier, with what follows it. -/
def detailRequest (rest : String) : Request :=
  ⟨"detail", none, "/users/:id" ++ rest, .get, [⟨"id", ⟨"id", .keyword .number, false⟩⟩], none, none,
    .keyword .string⟩

theorem evaluate_urlExpression_detail :
    (∀ p ∈ (detailRequest "/`posts`").params, isName p.parameter.name.toList = true) ∧
      ∀ values, evaluate values (urlExpression .double (detailRequest "/`posts`")) =
        some ((detailRequest "/`posts`").url values) :=
  ⟨by decide, (evaluate_urlExpression_iff .double (detailRequest "/`posts`") (by decide)).mpr
    ⟨nofun, fun _ => ⟨by decide, by decide, by decide⟩⟩⟩

/-- A pattern behind the identifier loses its backslash. -/
theorem evaluate_urlExpression_pattern :
    let r := detailRequest "(\\d+)"
    let seven := fun _ => units ['7']
    evaluate seven (urlExpression .double r) = some (units "/users/7(d+)".toList) ∧
      r.url seven = units "/users/7(\\d+)".toList ∧
      evaluate seven (urlExpression .double r) ≠ some (r.url seven) := by
  decide

end ApiSurface
