import ApiSurface.Proofs.Source.TypeParts

/-!
# Types are read back

The text of a type says what the type says: reading it gives the form of the type, so that types
with the same text have the same form. This needs names that no other word could be taken for, and
no union or intersection without members, which would have no text.

* `TypeExpr.tokens`: the text of a type in tokens, with `chars_tokens`;
* `TypeExpr.Readable`: the types that are read back, with `Readable.lexical`;
* `Readable.readsBack`: the tokens of a type are read as its form;
* **`TypeExpr.form_of_text`**: reading a text gives the form of its type.
-/

namespace ApiSurface

open ApiSurface.Text TypeReader TypeForm

/-! ## The tokens of types -/

/-- A literal as a token. -/
def Literal.token : Literal → Token
  | string value => .text value
  | number n => .word n.text
  | boolean value => .word (if value then "true" else "false")

namespace TypeExpr

/-- Tokens in parentheses, if needed. -/
def enclosed (needed : Bool) (ts : List Token) : List Token :=
  if needed then .mark .openParenthesis :: (ts ++ [.mark .closeParenthesis]) else ts

mutual

/-- The text of a type in tokens. -/
def tokens : TypeExpr → List Token
  | keyword k => [.word k.text]
  | literal v => [v.token]
  | undefined => [.word "undefined"]
  | null => [.word "null"]
  | void => [.word "void"]
  | any => [.word "any"]
  | unknown => [.word "unknown"]
  | array e => enclosed e.isCompound e.tokens ++ [.mark .openBracket, .mark .closeBracket]
  | union ms => joined [.blank, .bar, .blank] (tokensOf ms)
  | intersection ms => joined [.blank, .ampersand, .blank] (operandTokens ms)
  | reference name arguments =>
    if arguments.isEmpty then [.word name]
    else .word name :: .mark .less ::
      (joined [.comma, .blank] (tokensOf arguments) ++ [.mark .greater])
  | typeParameter name => [.word name]
  | object ms =>
    if ms.isEmpty then [.mark .openBrace, .mark .closeBrace]
    else .mark .openBrace :: .mark .blank ::
      (joined [.semicolon, .blank] (fieldTokens ms) ++ [.mark .blank, .mark .closeBrace])

/-- The text of each type in tokens. -/
def tokensOf : List TypeExpr → List (List Token)
  | [] => []
  | t :: ts => t.tokens :: tokensOf ts

/-- The text of each type as an operand of `&`. -/
def operandTokens : List TypeExpr → List (List Token)
  | [] => []
  | t :: ts => enclosed t.isUnion t.tokens :: operandTokens ts

/-- The text of each property in tokens. -/
def fieldTokens : List Property → List (List Token)
  | [] => []
  | ⟨name, type, optional, _⟩ :: ps => (fieldStart name optional ++ type.tokens) :: fieldTokens ps

end

theorem tokensOf_eq_map (ts : List TypeExpr) : tokensOf ts = ts.map tokens := by
  induction ts with
  | nil => rfl
  | cons t ts ih => rw [tokensOf, ih, List.map_cons]

theorem operandTokens_eq_map (ts : List TypeExpr) :
    operandTokens ts = ts.map fun t => enclosed t.isUnion t.tokens := by
  induction ts with
  | nil => rfl
  | cons t ts ih => rw [operandTokens, ih, List.map_cons]

theorem fieldTokens_eq_map (ps : List Property) :
    fieldTokens ps = ps.map fun p => fieldStart p.name p.optional ++ p.type.tokens := by
  induction ps with
  | nil => rfl
  | cons p ps ih =>
    obtain ⟨name, type, optional, docs⟩ := p
    rw [fieldTokens, ih, List.map_cons]

/-! ### Their characters -/

theorem chars_enclosed (needed : Bool) {ts : List Token} {s : String}
    (h : ts.flatMap chars = s.toList) :
    (enclosed needed ts).flatMap chars = (parenthesized needed s).toList := by
  unfold enclosed parenthesized
  split_ifs
  · simp [h, chars, Mark.char]
  · exact h

theorem chars_fieldStart (name : String) (optional : Bool) :
    (fieldStart name optional).flatMap chars =
      (keyText name ++ optionalMark optional ++ ": ").toList := by
  unfold fieldStart keyText optionalMark
  split_ifs <;> simp [chars, Mark.char]

theorem chars_literal (v : Literal) : [v.token].flatMap chars = v.text.toList := by
  cases v <;> exact List.flatMap_singleton _ _

/-- **The tokens of a type are its text.** -/
theorem chars_tokens (t : TypeExpr) : t.tokens.flatMap chars = t.text.toList := by
  induction t with
  | keyword | undefined | null | void | any | unknown | typeParameter =>
    exact List.flatMap_singleton _ _
  | literal v => exact chars_literal v
  | array e ih =>
    rw [tokens, text, List.flatMap_append, chars_enclosed _ ih, String.toList_append]
    rfl
  | union ms ih =>
    rw [tokens, text, tokensOf_eq_map, texts_eq_map]
    exact chars_joined rfl ih
  | intersection ms ih =>
    rw [tokens, text, operandTokens_eq_map, operands_eq_map]
    exact chars_joined rfl fun m hm => chars_enclosed _ (ih m hm)
  | reference name arguments ih =>
    rw [tokens, text, tokensOf_eq_map, texts_eq_map]
    split_ifs
    · exact List.flatMap_singleton _ _
    · have hlist : (joined [.comma, .blank] (arguments.map tokens)).flatMap chars =
          (", ".intercalate (arguments.map text)).toList := chars_joined rfl ih
      simp [hlist, chars, Mark.char]
  | object ms ih =>
    rw [tokens, text, fieldTokens_eq_map, propertyTexts_eq_map]
    split_ifs
    · rfl
    · have hfield (p : Property) (hp : p ∈ ms) :
          (fieldStart p.name p.optional ++ p.type.tokens).flatMap chars =
            (propertyText p).toList := by
        rw [List.flatMap_append, chars_fieldStart, ih p hp, ← String.toList_append]
        rfl
      have hlist := chars_joined (show [Mark.semicolon, .blank].map Mark.char = "; ".toList from rfl)
        hfield
      simp [hlist, chars, Mark.char]

/-! ### Types that can be read back -/

/-- The types whose names could be nothing else, and whose unions and intersections have
members. -/
inductive Readable : TypeExpr → Prop
  | keyword (k : Keyword) : Readable (.keyword k)
  | literal (v : Literal) : Readable (.literal v)
  | undefined : Readable .undefined
  | null : Readable .null
  | void : Readable .void
  | any : Readable .any
  | unknown : Readable .unknown
  | array {e : TypeExpr} (h : Readable e) : Readable (.array e)
  | union {ms : List TypeExpr} (hne : ms ≠ []) (h : ∀ m ∈ ms, Readable m) : Readable (.union ms)
  | intersection {ms : List TypeExpr} (hne : ms ≠ []) (h : ∀ m ∈ ms, Readable m) :
    Readable (.intersection ms)
  | reference {name : String} {arguments : List TypeExpr} (hname : IsName name)
    (h : ∀ a ∈ arguments, Readable a) : Readable (.reference name arguments)
  | typeParameter {name : String} (hname : IsName name) : Readable (.typeParameter name)
  | object {ms : List Property} (h : ∀ m ∈ ms, Readable m.type) : Readable (.object ms)

theorem lexical_enclosed (needed : Bool) {ts : List Token} (h : Lexical ts) :
    Lexical (enclosed needed ts) := by
  unfold enclosed
  split_ifs
  · exact .mark _ (h.append_mark _ .nil)
  · exact h

theorem lexical_fieldStart_append (name : String) (optional : Bool) {ts : List Token}
    (h : Lexical ts) : Lexical (fieldStart name optional ++ ts) := by
  unfold fieldStart
  by_cases hname : isIdentifier name = true
  · rw [if_pos hname]
    cases optional
    · exact .wordMark (isWord_of_isIdentifier hname) _ (.mark _ h)
    · exact .wordMark (isWord_of_isIdentifier hname) _ (.mark _ (.mark _ h))
  · rw [if_neg hname]
    cases optional
    · exact .text _ (.mark _ (.mark _ h))
    · exact .text _ (.mark _ (.mark _ (.mark _ h)))

theorem lexical_literal (v : Literal) : Lexical [v.token] := by
  cases v with
  | string s => exact .text s .nil
  | number n => exact .lastWord (isWord_number n)
  | boolean b => cases b <;> exact .lastWord (by decide)

/-- **No two words of a type touch.** -/
theorem Readable.lexical {t : TypeExpr} (h : t.Readable) : Lexical t.tokens := by
  induction h with
  | keyword k => cases k <;> exact .lastWord (by decide)
  | literal v => exact lexical_literal v
  | undefined | null | void | any | unknown => exact .lastWord (by decide)
  | array _ ih => exact (lexical_enclosed _ ih).append_mark _ (.mark _ .nil)
  | union _ _ ih =>
    rw [tokens, tokensOf_eq_map]
    exact lexical_joined (List.cons_ne_nil _ _) (List.forall_mem_map.mpr ih)
  | intersection _ _ ih =>
    rw [tokens, operandTokens_eq_map]
    exact lexical_joined (List.cons_ne_nil _ _)
      (List.forall_mem_map.mpr fun m hm => lexical_enclosed _ (ih m hm))
  | reference hname _ ih =>
    rw [tokens, tokensOf_eq_map]
    split_ifs
    · exact .lastWord hname.1
    · refine .wordMark hname.1 _ ((lexical_joined (List.cons_ne_nil _ _) ?_).append_mark _ .nil)
      exact List.forall_mem_map.mpr ih
  | typeParameter hname => exact .lastWord hname.1
  | object _ ih =>
    rw [tokens, fieldTokens_eq_map]
    split_ifs
    · exact .mark _ (.mark _ .nil)
    · refine .mark _ (.mark _ ((lexical_joined (List.cons_ne_nil _ _) ?_).append_mark _
        (.mark _ .nil)))
      exact List.forall_mem_map.mpr fun p hp => lexical_fieldStart_append _ _ (ih p hp)

/-! ### What they are read as -/

/-- The form of a readable type is flat. -/
theorem Readable.flat {t : TypeExpr} (h : t.Readable) : t.form.Flat := by
  induction h with
  | union hne _ ih =>
    rw [form, forms_eq_map]
    exact flat_join (by simpa using hne) (List.forall_mem_map.mpr ih) _
  | intersection hne _ ih =>
    rw [form, forms_eq_map]
    exact flat_join (by simpa using hne) (List.forall_mem_map.mpr ih) _
  | keyword | literal | undefined | null | void | any | unknown | array | reference
  | typeParameter | object =>
    rw [form]
    rintro (_ | _) gs h <;> cases h

/-- The tokens of a type are read as its form: as alternatives, as factors unless they are those of
a union, and as an operand unless they are those of a union or an intersection. -/
structure ReadsBack (t : TypeExpr) : Prop where
  alternatives : Reads .union t.tokens t.form
  factors : t.isUnion = false → Reads .intersection t.tokens t.form
  operand : t.isCompound = false → ReadsOperand t.tokens t.form

variable {t : TypeExpr}

theorem ReadsBack.of_operand (h : ReadsOperand t.tokens t.form) (hf : t.form.Flat) :
    ReadsBack t where
  alternatives := h.reads.alternative hf
  factors _ := h.reads
  operand _ := h

theorem ReadsBack.enclosed_operand (h : ReadsBack t) (hf : t.form.Flat) :
    ReadsOperand (enclosed t.isCompound t.tokens) t.form := by
  unfold enclosed
  split_ifs with hcompound
  · exact h.alternatives.parenthesized hf
  · exact h.operand (by simpa using hcompound)

theorem ReadsBack.enclosed_factors (h : ReadsBack t) (hf : t.form.Flat) :
    Reads .intersection (enclosed t.isUnion t.tokens) t.form := by
  unfold enclosed
  split_ifs with hunion
  · exact (h.alternatives.parenthesized hf).reads
  · exact h.factors (by simpa using hunion)

theorem readsOperand_word (w : String) : ReadsOperand [.word w] (wordForm w) := by
  rintro ⟨_, _, _⟩ around rfl
  rfl

theorem readsOperand_literal (v : Literal) : ReadsOperand [v.token] (.atom v.atom) := by
  cases v with
  | string s =>
    rintro ⟨_, _, _⟩ around rfl
    rfl
  | number n => exact wordForm_number n ▸ readsOperand_word n.text
  | boolean b => cases b <;> exact readsOperand_word _

theorem readsOperand_reference {name : String} (hname : IsName name) {arguments : List TypeExpr}
    (h : ∀ a ∈ arguments, Reads .union a.tokens a.form) (hf : ∀ a ∈ arguments, a.form.Flat) :
    ReadsOperand (reference name arguments).tokens (reference name arguments).form := by
  have hword := wordForm_name hname ▸ readsOperand_word name
  rw [tokens, form, tokensOf_eq_map, forms_eq_map]
  split_ifs with hempty
  · rw [List.isEmpty_iff.mp hempty]
    exact hword
  · rintro ⟨alternatives, factors, _⟩ around rfl
    have hne : arguments ≠ [] := by simpa using hempty
    rw [← List.singleton_append, run_append (hword _ around rfl), run_cons rfl,
      run_arguments hne h hf]
    rfl

theorem readsOperand_object {ms : List Property}
    (h : ∀ m ∈ ms, Reads .union m.type.tokens m.type.form) (hf : ∀ m ∈ ms, m.type.form.Flat) :
    ReadsOperand (object ms).tokens (object ms).form := by
  rw [tokens, form, fieldTokens_eq_map, fieldForms_eq_map]
  rintro ⟨alternatives, factors, _⟩ around rfl
  split_ifs with hempty
  · rw [List.isEmpty_iff.mp hempty]
    rfl
  · have hne : ms ≠ [] := by simpa using hempty
    rw [run_cons rfl, run_cons rfl, run_members hne h hf]
    rfl

/-- **The tokens of a readable type are read as its form.** -/
theorem Readable.readsBack (h : t.Readable) : ReadsBack t := by
  induction h with
  | keyword k => exact .of_operand (by cases k <;> exact readsOperand_word _) (Readable.keyword k).flat
  | literal v => exact .of_operand (readsOperand_literal v) (Readable.literal v).flat
  | undefined => exact .of_operand (readsOperand_word _) Readable.undefined.flat
  | null => exact .of_operand (readsOperand_word _) Readable.null.flat
  | void => exact .of_operand (readsOperand_word _) Readable.void.flat
  | any => exact .of_operand (readsOperand_word _) Readable.any.flat
  | unknown => exact .of_operand (readsOperand_word _) Readable.unknown.flat
  | array h ih => exact .of_operand (ih.enclosed_operand h.flat).array h.array.flat
  | union hne h ih =>
    refine ⟨?_, nofun, nofun⟩
    rw [tokens, form, tokensOf_eq_map, forms_eq_map]
    exact reads_joined hne (fun m hm => (ih m hm).alternatives) fun m hm => (h m hm).flat
  | @intersection ms hne h ih =>
    have hfactors : Reads .intersection (TypeExpr.intersection ms).tokens
        (TypeExpr.intersection ms).form := by
      rw [tokens, form, operandTokens_eq_map, forms_eq_map]
      exact reads_joined hne (fun m hm => (ih m hm).enclosed_factors (h m hm).flat)
        fun m hm => (h m hm).flat
    exact ⟨hfactors.alternative (Readable.intersection hne h).flat, fun _ => hfactors, nofun⟩
  | reference hname h ih =>
    exact .of_operand (readsOperand_reference hname (fun a ha => (ih a ha).alternatives)
      fun a ha => (h a ha).flat) (Readable.reference hname h).flat
  | typeParameter hname =>
    have hword := wordForm_name hname ▸ readsOperand_word _
    exact .of_operand hword (Readable.typeParameter hname).flat
  | object h ih =>
    exact .of_operand (readsOperand_object (fun m hm => (ih m hm).alternatives)
      fun m hm => (h m hm).flat) (Readable.object h).flat

/-- **Reading the text of a readable type** gives the form of the type. -/
theorem Readable.read?_text (h : t.Readable) : read? t.text = some t.form := by
  obtain ⟨m, hrun, hm⟩ := h.readsBack.alternatives.close h.flat []
  rw [read?, ← chars_tokens, tokens?_chars h.lexical, Option.bind_some, hrun]
  exact hm

example : read? "(A | null)[] & B" = some (.intersection
    [.array (.union [.reference "A" [], .atom .null]), .reference "B" []]) := by cbv

/-- **The text of a type says what the type says**: a reader for which `[]` binds stronger than `&`,
and `&` stronger than `|`, recovers the form of the type, so that types with the same text have the
same form. -/
theorem form_of_text {s t : TypeExpr} (hs : s.Readable) (ht : t.Readable) :
    read? t.text = some t.form ∧ (s.text = t.text → s.form = t.form) := by
  refine ⟨ht.read?_text, fun h => ?_⟩
  have hread := hs.read?_text
  rw [h, ht.read?_text] at hread
  exact (Option.some.inj hread).symm

/-- A type with a union in a union and an intersection of one type in an intersection. -/
def nested : TypeExpr :=
  .union [.union [.reference "User" [], .array (.union [.keyword .string, .null])],
    .intersection [.intersection [.reference "Page" [.typeParameter "T"]],
      .object [⟨"id", .literal (.number (.natural 1)), true, some "A number."⟩,
        ⟨"display-name", .literal (.string "a | b"), false, none⟩]]]

/-- A type that says the same. -/
def unnested : TypeExpr :=
  .union [.typeParameter "User", .array (.union [.keyword .string, .null]),
    .intersection [.reference "Page" [.reference "T" []],
      .object [⟨"id", .literal (.number (.natural 1)), true, none⟩,
        ⟨"display-name", .literal (.string "a | b"), false, none⟩]]]

theorem form_of_text_nested :
    nested.Readable ∧ unnested.Readable ∧ nested ≠ unnested ∧ nested.text = unnested.text ∧
      read? unnested.text = some unnested.form ∧ nested.form = unnested.form := by
  have huser : IsName "User" := isName_of_isIdentifier (by decide) (by decide)
  have hpage : IsName "Page" := isName_of_isIdentifier (by decide) (by decide)
  have ht : IsName "T" := isName_of_isIdentifier (by decide) (by decide)
  have hnullable : Readable (.array (.union [.keyword .string, .null])) :=
    .array (.union nofun (by simp [Readable.keyword, Readable.null]))
  have hfactors {t : TypeExpr} (h : t.Readable) (docs : Option String) :
      Readable (.intersection [t, .object
        [⟨"id", .literal (.number (.natural 1)), true, docs⟩,
          ⟨"display-name", .literal (.string "a | b"), false, none⟩]]) := by
    have hobject : Readable (.object [⟨"id", .literal (.number (.natural 1)), true, docs⟩,
        ⟨"display-name", .literal (.string "a | b"), false, none⟩]) :=
      .object (by simp [Readable.literal])
    exact .intersection nofun (by simp [h, hobject])
  have hnested : nested.Readable := by
    have hunion : Readable
        (.union [.reference "User" [], .array (.union [.keyword .string, .null])]) :=
      .union nofun (by simp [hnullable, Readable.reference huser])
    have hgeneric : Readable (.intersection [.reference "Page" [.typeParameter "T"]]) :=
      .intersection nofun (by simp [Readable.reference hpage, Readable.typeParameter ht])
    exact .union nofun (by simp [hunion, hfactors hgeneric])
  have hunnested : unnested.Readable := by
    have hgeneric : Readable (.reference "Page" [.reference "T" []]) :=
      .reference hpage (by simp [Readable.reference ht])
    exact .union nofun (by simp [hnullable, hfactors hgeneric, Readable.typeParameter huser])
  have htext : nested.text = unnested.text := by decide
  obtain ⟨hread, hform⟩ := form_of_text hnested hunnested
  exact ⟨hnested, hunnested, nofun, htext, hread, hform htext⟩

end TypeExpr

end ApiSurface
