import ApiSurface.Client.Function
import ApiSurface.Proofs.Document.Operations
import ApiSurface.Proofs.Schema.Inheritance

/-!
# What a caller may leave out

A client marks the parameters that its callers may leave out. A document should require nothing that
comes from one of them. It does so in one case: a parameter that supplies the whole query stands for
the properties of its type, and these are required unless they are optional themselves.

* `Client.Omits`: a client lets its callers leave a parameter out;
* `queryParts`, `bodyParts`: what each parameter of a request adds to the operation;
* `Insists`: the exception;
* **`operation_of_omitted`**: what an operation requires of parameters that may be left out.
-/

namespace ApiSurface

/-- A client lets its callers leave a parameter out. -/
def Client.Omits (p : BoundParameter) : Prop :=
  Client.parameterText p = p.name ++ "?: " ++ p.type.text

theorem Client.omits_iff {p : BoundParameter} : Client.Omits p ↔ p.optional = true := by
  unfold Client.Omits Client.parameterText
  cases h : p.optional with
  | true =>
    have hmark : "?: " = "?" ++ ": " := by decide
    simp [optionalMark, hmark, String.append_assoc]
  | false =>
    refine ⟨fun heq => ?_, nofun⟩
    have hlength := congrArg String.length heq
    have hmark : ": ".length = 2 ∧ "?: ".length = 3 := by decide
    simp only [optionalMark, Bool.false_eq_true, if_false, String.length_append, hmark] at hlength
    simp at hlength

namespace Document

variable (c : Catalog) (subject : String)

/-! ## What each parameter adds -/

/-- The query parameters of an operation, by the parameter of the request they come from. -/
def queryParts : Option Payload → List (BoundParameter × List Parameter)
  | none => []
  | some (.whole p) => [(p, (wholeQueryParameters c subject p).value)]
  | some (.fields bs) =>
    bs.map fun b => (b.parameter, [(fieldParameter c subject .query b).value])

/-- The properties of a body, by the parameter of the request they come from. -/
def bodyParts : Option Payload → List (BoundParameter × List PropertySchema)
  | none => []
  | some (.whole p) => [(p, [])]
  | some (.fields bs) => bs.map fun b => (b.parameter, (bodyProperties c subject [b]).value)

theorem map_fst_queryParts (payload : Option Payload) :
    (queryParts c subject payload).map (·.1) = payloadParameters payload := by
  match payload with
  | none => rfl
  | some (.whole p) => rfl
  | some (.fields bs) =>
    simp [queryParts, payloadParameters, Payload.parameters, List.map_map, Function.comp_def]

theorem flatMap_queryParts (payload : Option Payload) :
    (queryParts c subject payload).flatMap (·.2) = (queryParameters c subject payload).value := by
  match payload with
  | none => rfl
  | some (.whole p) => exact List.append_nil _
  | some (.fields bs) =>
    change _ = (fieldParameters c subject .query bs).value
    rw [value_fieldParameters, queryParts, List.flatMap_map, List.map_eq_flatMap]

theorem map_fst_bodyParts (payload : Option Payload) :
    (bodyParts c subject payload).map (·.1) = payloadParameters payload := by
  match payload with
  | none => rfl
  | some (.whole p) => rfl
  | some (.fields bs) =>
    simp [bodyParts, payloadParameters, Payload.parameters, List.map_map, Function.comp_def]

theorem inlineProperties_schemaOf (t : TypeExpr) :
    (schemaOf c subject t).value.inlineProperties = [] := by
  have hplain := Schema.Plain.getD (plain_resolve (some c) subject t)
  exact hplain.inlineProperties_eq_nil

theorem inlineProperties_requestBody (payload : Option Payload) :
    ∀ b ∈ (requestBody c subject payload).value,
      b.schema.inlineProperties = (bodyParts c subject payload).flatMap (·.2) := by
  match payload with
  | none => exact nofun
  | some (.whole p) =>
    rintro b ⟨⟩
    exact inlineProperties_schemaOf c subject p.type
  | some (.fields bs) =>
    rintro b ⟨⟩
    change (bodyProperties c subject bs).value = _
    have heach : ∀ b : FieldBinding, (bodyProperties c subject [b]).value =
        [⟨b.property, (schemaOf c subject b.parameter.type).value, none, !b.parameter.optional⟩] :=
      fun b => value_bodyProperties c subject [b]
    rw [value_bodyProperties, bodyParts, List.flatMap_map, List.map_eq_flatMap]
    simp only [heach]

/-! ## What is required -/

/-- The parameter supplies the whole query, and its type stands for properties of which one is not
optional and has a schema. -/
def Insists (payload : Option Payload) (p : BoundParameter) : Prop :=
  payload = some (.whole p) ∧ ∃ ps, expand c (maxNesting + 1) p.type = some ps ∧
    ∃ a ∈ ps, a.optional = false ∧ (resolve (some c) subject a.type).value.isSome = true

theorem exists_required_propertyParameters (ps : List Property) :
    (∃ q ∈ (propertyParameters c subject ps).value, q.required = true) ↔
      ∃ a ∈ ps, a.optional = false ∧ (resolve (some c) subject a.type).value.isSome = true := by
  simp only [value_propertyParameters, List.mem_filterMap, Option.map_eq_some_iff,
    Option.isSome_iff_exists]
  constructor
  · rintro ⟨q, ⟨a, ha, s, hs, rfl⟩, hrequired⟩
    exact ⟨a, ha, by simpa using hrequired, s, hs⟩
  · rintro ⟨a, ha, hoptional, s, hs⟩
    exact ⟨_, ⟨a, ha, s, hs, rfl⟩, by simpa using hoptional⟩

theorem exists_required_queryParts {payload : Option Payload}
    {part : BoundParameter × List Parameter} (hpart : part ∈ queryParts c subject payload)
    (homits : Client.Omits part.1) :
    (∃ q ∈ part.2, q.required = true) ↔ Insists c subject payload part.1 := by
  rw [Client.omits_iff] at homits
  match payload with
  | none => cases hpart
  | some (.whole p) =>
    cases List.mem_singleton.mp hpart
    dsimp only at homits ⊢
    rw [value_wholeQueryParameters]
    unfold Insists
    cases expand c (maxNesting + 1) p.type with
    | none => simp [homits]
    | some ps => simpa using exists_required_propertyParameters c subject ps
  | some (.fields bs) =>
    obtain ⟨b, -, rfl⟩ := List.mem_map.mp hpart
    have hrequired : (fieldParameter c subject .query b).value.required = false := by
      simpa [fieldParameter] using homits
    simp [hrequired, Insists]

theorem required_bodyParts {payload : Option Payload} {part : BoundParameter × List PropertySchema}
    (hpart : part ∈ bodyParts c subject payload) (homits : Client.Omits part.1) :
    ∀ a ∈ part.2, a.required = false := by
  rw [Client.omits_iff] at homits
  match payload with
  | none => cases hpart
  | some (.whole p) =>
    cases List.mem_singleton.mp hpart
    exact nofun
  | some (.fields bs) =>
    obtain ⟨b, -, rfl⟩ := List.mem_map.mp hpart
    intro a ha
    rw [value_bodyProperties] at ha
    obtain ⟨b', hb', rfl⟩ := List.mem_map.mp ha
    cases List.mem_singleton.mp hb'
    simpa using homits

theorem required_requestBody (payload : Option Payload) :
    ∀ b ∈ (requestBody c subject payload).value,
      (b.required = false ↔ ∀ p ∈ payloadParameters payload, Client.Omits p) := by
  match payload with
  | none => exact nofun
  | some (.whole p) =>
    rintro b ⟨⟩
    simp [payloadParameters, Payload.parameters, Client.omits_iff]
  | some (.fields bs) =>
    rintro b ⟨⟩
    simp [payloadParameters, Payload.parameters, Client.omits_iff]

theorem filter_query_parameters (controller : String) (r : Request) :
    (operation c controller r).value.parameters.filter (fun q => q.location = .query) =
      (queryParameters c (controller ++ "." ++ r.name) r.query).value := by
  have hpath := location_fieldParameters c (controller ++ "." ++ r.name) .path r.params
  have hquery := location_queryParameters c (controller ++ "." ++ r.name) r.query
  change List.filter _ (_ ++ _) = _
  rw [List.filter_append, List.filter_eq_nil_iff.mpr fun q hq => by simp [hpath q hq],
    List.filter_eq_self.mpr fun q hq => by simp [hquery q hq], List.nil_append]

/-- **What an operation requires of parameters that may be left out**: its query parameters and the
properties of its body are those of the parts. A part of the query requires something only if the
parameter insists, a part of the body never does, and the body is required unless all of it may be
left out. -/
theorem operation_of_omitted (controller : String) (r : Request) :
    let subject := controller ++ "." ++ r.name
    let o := (operation c controller r).value
    let query := queryParts c subject r.query
    let body := bodyParts c subject r.data
    (query.map (·.1) = payloadParameters r.query ∧
      query.flatMap (·.2) = o.parameters.filter fun q => q.location = .query) ∧
    (body.map (·.1) = payloadParameters r.data ∧
      ∀ b ∈ o.requestBody, b.schema.inlineProperties = body.flatMap (·.2)) ∧
    (∀ part ∈ query, Client.Omits part.1 →
      ((∃ q ∈ part.2, q.required = true) ↔ Insists c subject r.query part.1)) ∧
    (∀ part ∈ body, Client.Omits part.1 → ∀ a ∈ part.2, a.required = false) ∧
    ∀ b ∈ o.requestBody,
      (b.required = false ↔ ∀ p ∈ payloadParameters r.data, Client.Omits p) := by
  intro subject o query body
  refine ⟨⟨map_fst_queryParts c subject r.query, ?_⟩, ⟨map_fst_bodyParts c subject r.data, ?_⟩,
    ?_, ?_, ?_⟩
  · exact (flatMap_queryParts c subject r.query).trans
      (filter_query_parameters c controller r).symm
  · exact inlineProperties_requestBody c subject r.data
  · exact fun part hpart homits => exists_required_queryParts c subject hpart homits
  · exact fun part hpart homits => required_bodyParts c subject hpart homits
  · exact required_requestBody c subject r.data

/-- A catalog with one interface of one property that is not optional. -/
def filterCatalog : Catalog :=
  (Catalog.build [⟨⟨"Filter", none, true, .interface ⟨[textProperty "q"], [], []⟩⟩, "a.ts"⟩]).value

/-- A parameter of that type that may be left out. -/
def filterParameter : BoundParameter := ⟨"filter", .reference "Filter" [], true⟩

/-- A request whose query that parameter supplies, with a body of one field that may be left out. -/
def listRequest : Request :=
  ⟨"list", none, "/items", .get, [], some (.whole filterParameter),
    some (.fields [⟨"page", ⟨"page", .keyword .number, true⟩⟩]), .keyword .string⟩

theorem expand_filter :
    expand filterCatalog (maxNesting + 1) filterParameter.type = some [textProperty "q"] := by
  have hget : filterCatalog.get? "Filter" =
      some ⟨"Filter", none, true, .interface ⟨[textProperty "q"], [], []⟩⟩ := rfl
  have hflat : filterCatalog.flattenedProperties "Filter" = [textProperty "q"] := by
    rw [Catalog.flattenedProperties, hget]
    dsimp only
    rw [Catalog.ancestors_eq hget]
    rfl
  exact congrArg some hflat

theorem operation_of_omitted_list :
    Insists filterCatalog "Items.list" listRequest.query filterParameter ∧
      (∃ q ∈ (wholeQueryParameters filterCatalog "Items.list" filterParameter).value,
        q.required = true) ∧
      ∀ b ∈ (operation filterCatalog "Items" listRequest).value.requestBody, b.required = false := by
  have hinsists : Insists filterCatalog "Items.list" listRequest.query filterParameter :=
    ⟨rfl, _, expand_filter, textProperty "q", List.mem_singleton_self _, rfl, by decide⟩
  obtain ⟨-, -, hquery, -, hbody⟩ := operation_of_omitted filterCatalog "Items" listRequest
  refine ⟨hinsists, ?_, fun b hb => (hbody b hb).mpr ?_⟩
  · exact (hquery (filterParameter, _) (List.mem_singleton_self _)
      (Client.omits_iff.mpr rfl)).mpr hinsists
  · intro p hp
    cases List.mem_singleton.mp hp
    exact Client.omits_iff.mpr rfl

/-- A caller may leave out the whole query, and the document requires a parameter that comes from
it. -/
theorem required_of_omitted_query :
    Client.Omits filterParameter ∧ listRequest.query = some (.whole filterParameter) ∧
      ∃ q ∈ (operation filterCatalog "Items" listRequest).value.parameters,
        q.name = "q" ∧ q.location = .query ∧ q.required = true := by
  have hparameters : (operation filterCatalog "Items" listRequest).value.parameters =
      [⟨"q", .query, true, .ofKeyword .string, none⟩] := by
    change (wholeQueryParameters filterCatalog "Items.list" filterParameter).value = _
    rw [wholeQueryParameters, expand_filter]
    rfl
  refine ⟨Client.omits_iff.mpr rfl, rfl, ?_⟩
  rw [hparameters]
  exact ⟨⟨"q", .query, true, .ofKeyword .string, none⟩, List.mem_singleton_self _, rfl, rfl, rfl⟩

end Document
end ApiSurface
