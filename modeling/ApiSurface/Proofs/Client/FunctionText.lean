import ApiSurface.Proofs.Client.CodeLines
import ApiSurface.Proofs.Client.Declarations
import ApiSurface.Proofs.Client.Namespaces
import ApiSurface.Proofs.Client.TypeText
import ApiSurface.Proofs.Client.Url

/-!
# The text of request functions as code

Request functions end all comments and literals, and the references of their signatures are words of
their code, as long as no text in a request ends a comment or a literal too early.

* `Request.Legible`: the requests with such texts;
* `escaped_cut`: a url template does not end its literal;
* `closedLines_functionLines`, `wordOfLines_functionLines`: one function;
* `mem_groupByNamespace`: every controller is in the group of a namespace;
* **`wordOf_functionText`**: all functions.
-/

namespace ApiSurface

open ApiSurface.Client ApiSurface.Route ApiSurface.Text

/-- No backslash stands at the end or before a backtick. -/
def Route.Unescaped (cs : List Char) : Prop :=
  (cs.IsChain fun a b => a = '\\' → b ≠ '`') ∧ cs.getLast? ≠ some '\\'

theorem Route.Unescaped.tail {c : Char} {cs : List Char} (h : Unescaped (c :: cs)) :
    Unescaped cs := by
  refine ⟨h.1.tail, fun hlast => h.2 ?_⟩
  rw [List.getLast?_cons, hlast]
  rfl

/-- The requests whose texts end no comment and no literal: names are bare, documentation has no
`*/`, urls and keys in quotes have no line break, and no backslash of a url between backticks stands
at its end or before a backtick. -/
structure Request.Legible (r : Request) : Prop where
  name : Bare r.name
  docs : ∀ d ∈ r.docs, NoCommentEnd d
  url : r.params = [] → OneLine r.template
  template : r.params ≠ [] → Unescaped r.template.toList
  names : ∀ p ∈ r.parameters, Bare p.name
  types : ∀ p ∈ r.parameters, p.type.Legible
  keys : ∀ bs, some (.fields bs) ∈ [r.query, r.data] → ∀ b ∈ bs, OneLine b.property
  returnType : r.returnType.Legible

namespace Client

variable {params : List FieldBinding} {n : String}

/-! ## Urls -/

theorem Escaped.append_bare {a cs : List Char} (ha : a.all isBare = true)
    (h : Escaped '`' true cs) : Escaped '`' true (a ++ cs) := by
  induction a with
  | nil => exact h
  | cons c a ih =>
    rw [List.all_cons, Bool.and_eq_true] at ha
    refine .char ?_ ?_ (fun _ => rfl) (ih ha.2)
    · rintro rfl
      exact absurd ha.1 (by decide)
    · rintro rfl
      exact absurd ha.1 (by decide)

/-- A placeholder becomes bare text, at least one character of it. -/
theorem exists_interpolated (hparams : ∀ p ∈ params, Bare p.parameter.name)
    {name : List Char} (hname : name.all isBare = true) :
    ∃ c cs, interpolated params name = c :: cs ∧ isBare c = true ∧ cs.all isBare = true := by
  unfold interpolated
  cases hp : params.find? fun p => p.property = String.ofList name with
  | some p =>
    have hbare : Bare p.parameter.name := hparams p (List.mem_of_find?_eq_some hp)
    refine ⟨_, _, rfl, by decide, ?_⟩
    rw [List.all_cons, List.all_append, hbare]
    decide
  | none => exact ⟨_, _, rfl, by decide, hname⟩

/-- What becomes of a url template does not end its literal. Neither does it without its first
character, which a backslash before it takes, unless that is a backtick. -/
theorem escaped_cut (hparams : ∀ p ∈ params, Bare p.parameter.name) (skip : Nat) (cs : List Char)
    (h : Unescaped cs) :
    Escaped '`' true ((cut skip cs).flatMap (Piece.written tick (interpolated params))) ∧
      ∀ c r, skip = 0 → cs = c :: r → c ≠ '`' →
        ∃ d ds, (cut skip cs).flatMap (Piece.written tick (interpolated params)) = d :: ds ∧
          Escaped '`' true ds := by
  fun_induction cut skip cs with
  | case1 skip => exact ⟨.nil, fun c r _ hcs => absurd hcs (by simp)⟩
  | case2 skip c cs ih => exact ⟨(ih h.tail).1, fun _ _ hskip => absurd hskip (by simp)⟩
  | case3 c cs hstart ih =>
    have hname : (c :: cs.takeWhile isIdentPart).all isBare = true := by
      rw [List.all_cons, @isBare_of isIdentStart (by decide) c hstart, Bool.true_and]
      exact List.all_eq_true.mpr fun d hd =>
        @isBare_of isIdentPart (by decide) d (List.all_eq_true.mp List.all_takeWhile d hd)
    obtain ⟨d, ds, hpiece, hd, hds⟩ := exists_interpolated hparams hname
    have hall : (d :: ds).all isBare = true := by rw [List.all_cons, hd, hds, Bool.and_self]
    have hrest := (ih h.tail).1
    rw [List.flatMap_cons, Piece.written, hpiece]
    exact ⟨hrest.append_bare hall, fun _ _ _ _ _ => ⟨d, _, rfl, hrest.append_bare hds⟩⟩
  | case4 c cs hstart ih =>
    have hrest := (ih h.tail).1
    rw [List.flatMap_cons]
    exact ⟨.char (by decide) (by decide) (fun _ => rfl) hrest,
      fun _ _ _ _ _ => ⟨':', _, rfl, hrest⟩⟩
  | case5 c cs hcolon ih =>
    obtain ⟨hrest, hnext⟩ := ih h.tail
    rw [List.flatMap_cons, Piece.written, tick]
    constructor
    · split_ifs with htick
      · exact .pair hrest
      · by_cases hslash : c = '\\'
        · -- a backslash goes together with the first character that follows in the literal
          cases cs with
          | nil => exact absurd (congrArg some hslash) h.2
          | cons d cs =>
            have hd : d ≠ '`' := (List.isChain_cons_cons.mp h.1).1 hslash
            obtain ⟨e, es, heq, hes⟩ := hnext d cs rfl rfl hd
            rw [heq, hslash]
            exact .pair hes
        · exact .char htick hslash (fun _ => rfl) hrest
    · rintro d r - hcs hd
      obtain ⟨rfl, -⟩ := List.cons.inj hcs
      rw [if_neg hd]
      exact ⟨c, _, rfl, hrest⟩

/-- **A url between backticks ends where it should.** -/
theorem closed_templateLiteral (hparams : ∀ p ∈ params, Bare p.parameter.name) {template : String}
    (h : Unescaped template.toList) : Closed (templateLiteral params template) := by
  rw [templateLiteral_eq_flatMap]
  refine closed_of_forall (code_append_of_afterNonCode String.toList_ofList fun r => ?_)
  rw [List.append_assoc]
  exact literalEnd_append (by decide) (escaped_cut hparams 0 _ h).1 r

theorem closed_urlExpression (q : QuoteStyle) {r : Request} (h : r.Legible) :
    Closed (urlExpression q r) := by
  unfold urlExpression
  split_ifs with hparams
  · exact closed_quoted (delimiter_cases q) (h.url (List.isEmpty_iff.mp hparams))
  · rw [List.isEmpty_iff] at hparams
    refine closed_templateLiteral (fun p hp => h.names _ ?_) (h.template hparams)
    exact List.mem_append_left _ (List.mem_append_left _ (List.mem_map_of_mem hp))

/-! ## Payloads -/

theorem closed_payloadExpression (q : QuoteStyle) {p : Payload}
    (hnames : ∀ b ∈ p.parameters, Bare b.name)
    (hkeys : ∀ bs, p = .fields bs → ∀ b ∈ bs, OneLine b.property) :
    Closed (payloadExpression q p) := by
  cases p with
  | whole p => exact (hnames p (List.mem_singleton_self p)).closed
  | fields bs =>
    refine .between (by decide) (closed_intercalate (Bare.closed (by decide))
      (List.forall_mem_map.mpr fun b hb => ?_)) (by decide)
    exact ((closed_key (delimiter_cases q) (hkeys bs rfl b hb)).append
      (Bare.closed (by decide))).append (hnames _ (List.mem_map_of_mem hb)).closed

section Functions

variable {s : ClientSettings} {target : CallTarget} {r : Request}

/-! ## Signatures -/

theorem closed_nameColon {p : BoundParameter} (h : Bare p.name) :
    Closed (p.name ++ optionalMark p.optional ++ ": ") :=
  ((h.append (bare_optionalMark p.optional)).append (by decide)).closed

theorem closed_signatureParts (htarget : Bare target.overridesType)
    (hs : ∀ o ∈ s.overridesParam, Bare o) (h : r.Legible) :
    ∀ t ∈ r.parameters.map parameterText ++
      (s.overridesParam.map fun o => o ++ "?: " ++ target.overridesType).toList, Closed t := by
  intro t ht
  rcases List.mem_append.mp ht with ht | ht
  · obtain ⟨p, hp, rfl⟩ := List.mem_map.mp ht
    exact (closed_nameColon (h.names p hp)).append (h.types p hp).closed_text
  · obtain ⟨o, ho, rfl⟩ := Option.map_eq_some_iff.mp (Option.mem_toList.mp ht)
    exact (((hs o ho).append (by decide)).append htarget).closed

theorem closed_signature (htarget : Bare target.overridesType)
    (hs : ∀ o ∈ s.overridesParam, Bare o) (h : r.Legible) : Closed (signature s target r) :=
  closed_intercalate (Bare.closed (by decide)) (closed_signatureParts htarget hs h)

/-- The references in the types of parameters are words of the signature. -/
theorem wordOf_signature (htarget : Bare target.overridesType)
    (hs : ∀ o ∈ s.overridesParam, Bare o) (h : r.Legible) (hn : Bounded n) {p : BoundParameter}
    (hp : p ∈ r.parameters) (hmem : n ∈ p.type.references) :
    WordOf n (code (signature s target r)) := by
  have hparameter : WordOf n (code (parameterText p)) :=
    wordOf_code_prepend (closed_nameColon (h.names p hp)) ((h.types p hp).wordOf_text hn hmem)
      (endsOutside_code_append ((h.names p hp).append (bare_optionalMark _)).closed (by decide))
  exact wordOf_intercalate (Bare.closed (by decide)) (by decide) (by decide)
    (closed_signatureParts htarget hs h) (List.mem_append_left _ (List.mem_map_of_mem hp))
    hparameter

/-! ## Functions -/

/-- The beginning of the opening line of a function, up to its parameters. -/
theorem closed_functionName (h : r.Legible) : Closed ("export function " ++ r.name ++ "(") :=
  .between (by decide) h.name.closed (by decide)

theorem closed_opening (htarget : Bare target.overridesType)
    (hs : ∀ o ∈ s.overridesParam, Bare o) (h : r.Legible) :
    Closed ("export function " ++ r.name ++ "(" ++ signature s target r ++ "): Promise<" ++
      r.returnType.text ++ "> \x7b") :=
  ((((closed_functionName h).append (closed_signature htarget hs h)).append
    (Bare.closed (by decide))).append h.returnType.closed_text).append (Bare.closed (by decide))

/-- The names of a signature are words of the opening line of its function. -/
theorem innerWord_opening (htarget : Bare target.overridesType)
    (hs : ∀ o ∈ s.overridesParam, Bare o) (h : r.Legible) (hn : Bounded n) (hmem : Mentions r n) :
    InnerWord n (code ("export function " ++ r.name ++ "(" ++ signature s target r ++
      "): Promise<" ++ r.returnType.text ++ "> \x7b")) := by
  have hname := closed_functionName h
  have hsignature := closed_signature htarget hs h
  have hpromise : Closed "): Promise<" := Bare.closed (by decide)
  have hfront := (hname.append hsignature).append hpromise
  rw [hfront.append h.returnType.closed_text, hfront]
  rcases hmem with ⟨p, hp, hmem⟩ | hmem
  · rw [hname.append hsignature, hname]
    refine InnerWord.append (InnerWord.append (WordOf.between ?_ ?_ (by decide)))
    · exact wordOf_signature htarget hs h hn hp hmem
    · exact endsOutside_code_append (Closed.append (Bare.closed (by decide)) h.name.closed)
        (by decide)
  · refine WordOf.between (h.returnType.wordOf_text hn hmem) ?_ (by decide)
    exact endsOutside_code_append (hname.append hsignature) (by decide)

theorem closed_option {key value : String} (hkey : Bare key) (hvalue : Closed value) :
    Closed (line (key ++ value ++ ",")).text :=
  .between hkey hvalue (by decide)

theorem closedLines_optionLines (hs : ∀ o ∈ s.overridesParam, Bare o) (h : r.Legible) :
    ClosedLines (optionLines s r) := by
  have hquery : ∀ p, r.query = some p → Closed (payloadExpression s.format.quote p) := by
    intro p hp
    refine closed_payloadExpression _ (fun b hb => h.names b ?_) fun bs hbs => h.keys bs ?_
    · unfold Request.parameters
      rw [hp]
      exact List.mem_append_left _ (List.mem_append_right _ hb)
    · rw [hp, hbs]
      exact List.mem_cons_self
  have hdata : ∀ p, r.data = some p → Closed (payloadExpression s.format.quote p) := by
    intro p hp
    refine closed_payloadExpression _ (fun b hb => h.names b ?_) fun bs hbs => h.keys bs ?_
    · unfold Request.parameters
      rw [hp]
      exact List.mem_append_right _ hb
    · rw [hp, hbs]
      exact List.mem_cons_of_mem _ List.mem_cons_self
  have hverb : OneLine r.verb.lower := by cases r.verb <;> decide
  refine closedLines_of_forall fun l hl => ?_
  simp only [optionLines, List.mem_append, List.mem_cons, List.not_mem_nil, or_false,
    Option.mem_toList, Option.map_eq_some_iff] at hl
  obtain (((rfl | rfl) | ⟨p, hp, rfl⟩) | ⟨p, hp, rfl⟩) | ⟨o, ho, rfl⟩ := hl
  · exact closed_option (by decide) (closed_quoted (delimiter_cases _) hverb)
  · exact closed_option (by decide) (closed_urlExpression _ h)
  · exact closed_option (by decide) (hquery p hp)
  · exact closed_option (by decide) (hdata p hp)
  · exact closed_option (by decide) (hs o ho).closed

theorem closedLines_call (hcallee : Bare target.callee) (hs : ∀ o ∈ s.overridesParam, Bare o)
    (h : r.Legible) : ClosedLines
      (nested ("return " ++ target.callee ++ "(\x7b") (optionLines s r) "\x7d);") :=
  .nested (.between (by decide) hcallee.closed (by decide)) (closedLines_optionLines hs h)
    (Bare.closed (by decide))

/-- **A function ends all comments and literals.** -/
theorem closedLines_functionLines (hcallee : Bare target.callee)
    (htarget : Bare target.overridesType) (hs : ∀ o ∈ s.overridesParam, Bare o) (h : r.Legible) :
    ClosedLines (functionLines s target r) :=
  (closedLines_docLines h.docs).append (.nested (closed_opening htarget hs h)
    (closedLines_call hcallee hs h) (Bare.closed (by decide)))

/-- **The names of a signature are words of its function.** -/
theorem wordOfLines_functionLines (htarget : Bare target.overridesType)
    (hs : ∀ o ∈ s.overridesParam, Bare o) (h : r.Legible) (hn : Bounded n) (hmem : Mentions r n) :
    WordOfLines n (functionLines s target r) :=
  (wordOfLines_opening (closed_opening htarget hs h)
    (innerWord_opening htarget hs h hn hmem)).prepend (closedLines_docLines h.docs)

end Functions

/-! ## Namespaces -/

theorem bare_namespaceName (name : String) : Bare (namespaceName name) :=
  List.all_eq_true.mpr fun c hc =>
    @isBare_of isCapitalPart (by decide) c ((isNamespace_namespaceName name).capital c hc)

/-- **Every controller is in the group of a namespace**, and groups have no others. -/
theorem mem_groupByNamespace {k : Controller} {ks : List Controller} :
    (∃ g ∈ groupByNamespace ks, k ∈ g.2) ↔ k ∈ ks := by
  rw [groupByNamespace_eq]
  constructor
  · rintro ⟨g, hg, hk⟩
    obtain ⟨name, -, rfl⟩ := List.mem_map.mp hg
    exact (List.mem_filter.mp hk).1
  · intro hk
    exact ⟨_, List.mem_map_of_mem (mem_namespaceNames.mpr ⟨k, hk, rfl⟩),
      List.mem_filter.mpr ⟨hk, decide_eq_true rfl⟩⟩

theorem bare_fst_of_mem_groupByNamespace {ks : List Controller} {g : String × List Controller}
    (hg : g ∈ groupByNamespace ks) : Bare g.1 := by
  rw [groupByNamespace_eq] at hg
  obtain ⟨name, hname, rfl⟩ := List.mem_map.mp hg
  obtain ⟨k, -, rfl⟩ := mem_namespaceNames.mp hname
  exact bare_namespaceName k.name

section Namespaces

variable {s : ClientSettings} {ks : List Controller}

theorem bare_callTarget (s : ClientSettings) :
    Bare (callTarget s).callee ∧ Bare (callTarget s).overridesType := by
  unfold callTarget
  cases s.requestModule with
  | none => exact ⟨by decide, by decide⟩
  | some moduleName =>
    have hcallee : Bare "request" := by decide
    have htarget : Bare "Partial<Parameters<typeof request>[0]>" := by decide
    exact ⟨hcallee, htarget⟩

theorem closed_namespaceOpening {g : String × List Controller} (hg : g ∈ groupByNamespace ks) :
    Closed ("export namespace " ++ g.1 ++ " \x7b") :=
  .between (by decide) (bare_fst_of_mem_groupByNamespace hg).closed (by decide)

theorem closedLines_functions (hs : ∀ o ∈ s.overridesParam, Bare o)
    (hks : ∀ r ∈ ks.flatMap (·.requests), r.Legible) {g : String × List Controller}
    (hg : g ∈ groupByNamespace ks) :
    ∀ ls ∈ (g.2.flatMap (·.requests)).map (functionLines s (callTarget s)), ClosedLines ls := by
  refine List.forall_mem_map.mpr fun r hr => ?_
  obtain ⟨k, hk, hr⟩ := List.mem_flatMap.mp hr
  have hlegible : r.Legible :=
    hks r (List.mem_flatMap.mpr ⟨k, mem_groupByNamespace.mp ⟨g, hg, hk⟩, hr⟩)
  obtain ⟨hcallee, htarget⟩ := bare_callTarget s
  exact closedLines_functionLines hcallee htarget hs hlegible

theorem closedLines_namespaceLines (hs : ∀ o ∈ s.overridesParam, Bare o)
    (hks : ∀ r ∈ ks.flatMap (·.requests), r.Legible) :
    ∀ ls ∈ (groupByNamespace ks).map (namespaceLines s (callTarget s)), ClosedLines ls :=
  List.forall_mem_map.mpr fun _ hg => .nested (closed_namespaceOpening hg)
    (closedLines_spaced (closedLines_functions hs hks hg)) (Bare.closed (by decide))

/-- **The names of signatures are words of the functions of a client.** -/
theorem wordOf_functionText (hs : ∀ o ∈ s.overridesParam, Bare o)
    (hks : ∀ r ∈ ks.flatMap (·.requests), r.Legible) (hn : Bounded n)
    (hmem : ∃ r ∈ ks.flatMap (·.requests), Mentions r n) :
    mentions (code (functionText s ks)) n = true := by
  obtain ⟨r, hr, hmem⟩ := hmem
  have hlegible := hks r hr
  obtain ⟨k, hk, hr⟩ := List.mem_flatMap.mp hr
  obtain ⟨g, hg, hk⟩ := mem_groupByNamespace.mpr hk
  have hfunction : WordOfLines n (functionLines s (callTarget s) r) :=
    wordOfLines_functionLines (bare_callTarget s).2 hs hlegible hn hmem
  have hfunctions := closedLines_functions hs hks hg
  have hnamespace : WordOfLines n (namespaceLines s (callTarget s) g) :=
    .nested (closed_namespaceOpening hg) (closedLines_spaced hfunctions) (wordOfLines_spaced
      (List.mem_map_of_mem (List.mem_flatMap.mpr ⟨k, hk, hr⟩)) hfunctions hfunction)
  have hnamespaces : WordOfLines n (namespaces s (callTarget s) ks) :=
    wordOfLines_spaced (List.mem_map_of_mem hg) (closedLines_namespaceLines hs hks) hnamespace
  exact (hnamespaces s.format.indent _ rfl).mentions

end Namespaces

end Client

end ApiSurface
