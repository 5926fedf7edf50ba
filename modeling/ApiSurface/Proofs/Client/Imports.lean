import ApiSurface.Proofs.Client.FunctionText

/-!
# What functions mention is imported

Of an import, the names are kept that the code of the functions has as words. A name that words do
not bound, such as one with `$` at an end, is no word there and is lost.

* `Import.exists_pruned`: an import keeps a name that code mentions;
* `mem_typesImport`: the types that a client can import are those that signatures mention;
* **`emit_typesImport`**: a bounded name that a signature mentions is imported;
* `not_imported_dollar`: a name with `$` at its front is not.
-/

namespace ApiSurface.Client

open ApiSurface.Text

/-! ## Imports -/

/-- An import keeps exactly the names that code mentions. -/
theorem Import.mem_named_of_pruned {i j : Import} {body n : String}
    (h : i.pruned body = some j) :
    n ∈ j.named ↔ n ∈ i.named ∧ mentions (code body) n = true := by
  unfold pruned at h
  dsimp only at h
  split_ifs at h
  cases h
  exact List.mem_filter

theorem Import.exists_pruned {i : Import} {body n : String} (hn : n ∈ i.named)
    (h : mentions (code body) n = true) :
    ∃ j, i.pruned body = some j ∧ n ∈ j.named ∧ j.moduleName = i.moduleName := by
  have hmem : n ∈ i.named.filter (mentions (code body)) := List.mem_filter.mpr ⟨hn, h⟩
  have hne : (i.named.filter (mentions (code body))).isEmpty = false := by
    rw [List.isEmpty_eq_false_iff]
    exact List.ne_nil_of_mem hmem
  refine ⟨⟨i.primary.filter (mentions (code body)), i.named.filter (mentions (code body)),
    i.moduleName⟩, ?_, hmem, rfl⟩
  unfold pruned
  dsimp only
  rw [hne, Bool.and_false]
  rfl

/-- What is left of an import stands before the body that needs it. -/
theorem exists_importText (q : QuoteStyle) {imports : List Import} {body : String} {i j : Import}
    (hi : i ∈ imports) (hj : i.pruned body = some j) :
    ∃ before after, importText q imports body = before ++ j.text q ++ after := by
  have hneeded : j ∈ imports.filterMap fun i => i.pruned body :=
    List.mem_filterMap.mpr ⟨i, hi, hj⟩
  obtain ⟨before, after, heq⟩ :=
    @exists_intercalate _ "\n" _ (List.mem_map_of_mem (f := Import.text q) hneeded)
  refine ⟨before, after ++ "\n\n", ?_⟩
  unfold importText
  dsimp only
  rw [if_neg (by rw [List.isEmpty_iff]; exact List.ne_nil_of_mem hneeded), heq,
    String.append_assoc]

/-! ## Imports of clients -/

variable {ks : List Controller} {c : Catalog} {n : String}

/-- A client can import the declared names that its signatures mention. -/
theorem mem_typesImport (s : ClientSettings) (out : String) :
    n ∈ (typesImport s ks c out).named ↔
      (∃ r ∈ ks.flatMap (·.requests), Mentions r n) ∧ c.contains n = true := by
  unfold typesImport
  dsimp only
  rw [List.mem_filter, List.contains_iff_mem, mem_signatureReferences, and_comm]
  refine and_congr_right fun hmem => ⟨fun hn => ?_, fun hc => ?_⟩
  · obtain ⟨d, hd, rfl⟩ := List.mem_map.mp hn
    exact (needed_iff.mp (mem_usedDeclarations.mp hd)).2.contains
  · obtain ⟨d, hd, rfl⟩ :=
      exists_mem_usedDeclarations (.root (mem_signatureReferences.mpr hmem) hc)
    exact List.mem_map_of_mem hd

/-- **What signatures mention is imported**: in a client with the types in a unit of their own, as
long as no text ends a comment or a literal too early, each declared name that word characters bound
and that the type of a parameter or of an answer mentions is among the names that the request unit
imports from the unit of types. -/
theorem emit_typesImport (s : ClientSettings) (ks : List Controller) (c : Catalog) {out : String}
    (hout : s.typesOutput = some out) (hs : ∀ o ∈ s.overridesParam, Bare o)
    (hks : ∀ r ∈ ks.flatMap (·.requests), r.Legible) (n : String) (hn : Bounded n)
    (hmem : ∃ r ∈ ks.flatMap (·.requests), Mentions r n) (hc : c.contains n = true) :
    ∃ i, n ∈ i.named ∧ i.moduleName = Path.relativeModule s.output out ∧
      (typesImport s ks c out).pruned (functionText s ks) = some i ∧
      ∃ before after, (emit s ks c).value.head? = some ⟨s.output,
        header s ++ (before ++ i.text s.format.quote ++ after) ++ functionText s ks⟩ := by
  obtain ⟨i, hi, hnamed, hmodule⟩ := Import.exists_pruned
    ((mem_typesImport s out).mpr ⟨hmem, hc⟩) (wordOf_functionText hs hks hn hmem)
  have himport : typesImport s ks c out ∈ [(callTarget s).imported, typesImport s ks c out] :=
    List.mem_cons_of_mem _ List.mem_cons_self
  obtain ⟨before, after, heq⟩ := exists_importText s.format.quote himport hi
  refine ⟨i, hnamed, hmodule, hi, before, after, ?_⟩
  unfold emit artifacts
  rw [hout, ← heq]
  rfl

/-- An interface. -/
def filterEntries : List Entry :=
  [⟨⟨"Filter", none, true, .interface ⟨[], [], []⟩⟩, "a.ts"⟩]

/-- A path field of a type with quotes. -/
def idParameter : BoundParameter := ⟨"id", .literal (.string "it's /* \"Filter\""), false⟩

/-- A query field of a type with a reference. -/
def filterParameter : BoundParameter := ⟨"filter", .array (.reference "Filter" []), true⟩

/-- A request with quotes, a backtick, a backslash and the beginnings of comments in its texts. -/
def filterRequest : Request :=
  ⟨"find", some "The user's `Filter`, \"see\" /* // here\n * there", "/users/:id(\\d)`//x", .get,
    [⟨"id", idParameter⟩], some (.fields [⟨"a\"/*b", filterParameter⟩]), none,
    .reference "User" []⟩

/-- A controller with this request. -/
def filterController : Controller := ⟨"1 users", "a.ts", "/users", none, [filterRequest]⟩

/-- Settings with a unit for the types. -/
def filterSettings : ClientSettings :=
  ⟨"client/api.ts", some "types.ts", none, some "overrides", none, .standard⟩

theorem parameters_filterRequest :
    filterRequest.parameters = [idParameter, filterParameter] := rfl

theorem legible_filterRequest : filterRequest.Legible where
  name := by decide
  docs := by
    rintro d ⟨⟩
    decide
  url h := by cases h
  template _ := ⟨by decide, by decide⟩
  names := by
    rw [parameters_filterRequest, List.forall_mem_cons, List.forall_mem_singleton]
    exact ⟨by decide, by decide⟩
  types := by
    rw [parameters_filterRequest, List.forall_mem_cons, List.forall_mem_singleton]
    exact ⟨.string (by decide),
      .array (.reference (by decide) fun _ h => absurd h List.not_mem_nil)⟩
  keys bs hbs b hb := by
    rcases List.mem_pair.mp hbs with hbs | hbs
    · cases hbs
      rw [List.mem_singleton.mp hb]
      decide
    · cases hbs
  returnType := .reference (by decide) fun _ h => absurd h List.not_mem_nil

theorem emit_typesImport_filter :
    let c := (Catalog.build filterEntries).value
    ∃ i : Import, "Filter" ∈ i.named ∧
      i.moduleName = Path.relativeModule filterSettings.output "types.ts" ∧
      (typesImport filterSettings [filterController] c "types.ts").pruned
        (functionText filterSettings [filterController]) = some i ∧
      ∃ before after, (emit filterSettings [filterController] c).value.head? =
        some ⟨filterSettings.output, header filterSettings ++
          (before ++ i.text filterSettings.format.quote ++ after) ++
            functionText filterSettings [filterController]⟩ := by
  intro c
  refine emit_typesImport filterSettings [filterController] c rfl ?_ ?_ "Filter" (by decide) ?_
    (by decide)
  · rintro o ⟨⟩
    decide
  · intro r hr
    rw [List.mem_singleton.mp hr]
    exact legible_filterRequest
  · refine ⟨filterRequest, List.mem_singleton_self _, Or.inl ⟨filterParameter, ?_, by decide⟩⟩
    rw [parameters_filterRequest]
    exact List.mem_cons_of_mem _ List.mem_cons_self

/-- A request whose answer is of a type with `$` at the front of its name. -/
def dollarRequest : Request := ⟨"all", none, "/", .get, [], none, none, .reference "$Filter" []⟩

/-- A controller with this request. -/
def dollarController : Controller := ⟨"api", "a.ts", "/", none, [dollarRequest]⟩

/-- In the code of the function, blanks stand for the verb and the url. -/
theorem code_functionText_dollar : code (functionText filterSettings [dollarController]) =
    "export namespace API \x7b\n  export function all(overrides?: AxiosRequestConfig): " ++
    ("Promise<$Filter> \x7b\n    return axios.request(\x7b\n      method: " ++ (" " ++
    (",\n      url: " ++ (" " ++ ",\n      ...overrides,\n    \x7d);\n  \x7d\n\x7d\n")))) := by
  have htext : functionText filterSettings [dollarController] =
      "export namespace API \x7b\n  export function all(overrides?: AxiosRequestConfig): " ++
      ("Promise<$Filter> \x7b\n    return axios.request(\x7b\n      method: " ++
      (quoted '"' "get" ++ (",\n      url: " ++ (quoted '"' "/" ++
      ",\n      ...overrides,\n    \x7d);\n  \x7d\n\x7d\n")))) := by
    decide +kernel
  have hquote : '"' = '"' ∨ '"' = '\'' := Or.inl rfl
  rw [htext, code_append_of_bare (by decide), code_append_of_bare (by decide),
    code_quoted hquote (by decide), code_append_of_bare (by decide),
    code_quoted hquote (by decide), Bare.code_eq (by decide)]

/-- A name that is an identifier, declared and mentioned by a signature, and yet not imported. -/
theorem not_imported_dollar :
    let c := (Catalog.build [⟨⟨"$Filter", none, true, .interface ⟨[], [], []⟩⟩, "b.ts"⟩]).value
    isIdentifier "$Filter" = true ∧ c.contains "$Filter" = true ∧
      Mentions dollarRequest "$Filter" ∧
      ∀ i, (typesImport filterSettings [dollarController] c "types.ts").pruned
        (functionText filterSettings [dollarController]) = some i → "$Filter" ∉ i.named := by
  refine ⟨by decide, by decide, Or.inr (by decide), fun i hi hn => ?_⟩
  have hmentions := ((Import.mem_named_of_pruned hi).mp hn).2
  rw [code_functionText_dollar, mentions] at hmentions
  simp only [String.toList_append, String.reduceToList] at hmentions
  revert hmentions
  decide +kernel

end ApiSurface.Client
