import ApiSurface.Proofs.Catalog.Reach
import ApiSurface.Proofs.Document.Components
import ApiSurface.Proofs.Schema.Distinctness
import Mathlib.Data.List.Permutation

/-!
# Documents that name nothing twice

A document is tidy if no object in it repeats a name, required names are those of properties, and
the parameters of an operation differ. Nothing removes repetitions from the properties of a
declaration, from the fields of a request or from those of an object type that supplies a query, so
this depends on them, and on nothing else.

* `tidy_toJson_iff`: a document is tidy if its operations and its schemas are;
* `tidy_operation_iff`, `nodup_parameters_iff`: what the operation of a request must not repeat;
* **`tidy_build_iff`**: what the document of controllers and a catalog must not repeat.
-/

namespace ApiSurface

open Json

namespace Document

/-! ## The parts of a document -/

theorem tidy_jsonContent_iff (s : Schema) : Tidy (jsonContent s) ↔ Tidy s.toJson := by
  simp [jsonContent, tidy_object_iff_of_not_required]

theorem Parameter.tidy_toJson_iff (p : Parameter) : Tidy p.toJson ↔ Tidy p.schema.toJson := by
  rw [Parameter.toJson, Schema.toJson, tidy_object_iff_of_not_required]
  all_goals cases p.description <;> simp [textIf, memberIf]

theorem RequestBody.tidy_toJson_iff (b : RequestBody) : Tidy b.toJson ↔ Tidy b.schema.toJson := by
  rw [RequestBody.toJson, tidy_object_iff_of_not_required (by simp)]
  simp [tidy_jsonContent_iff]

theorem Response.tidy_toJson_iff (r : Response) :
    Tidy r.toJson ↔ ∀ s ∈ r.schema, Tidy s.toJson := by
  rw [Response.toJson, tidy_object_iff_of_not_required]
  all_goals cases r.schema <;> simp [memberIf, tidy_jsonContent_iff]

theorem Operation.forall_mem_schemas {o : Operation} {p : Schema → Prop} :
    (∀ s ∈ o.schemas, p s) ↔ (∀ q ∈ o.parameters, p q.schema) ∧
      (∀ b ∈ o.requestBody, p b.schema) ∧ ∀ r ∈ o.responses, ∀ s ∈ r.2.schema, p s := by
  rw [Operation.schemas, List.forall_mem_append, List.forall_mem_append, and_assoc,
    List.forall_mem_map]
  refine and_congr_right fun _ => and_congr ?_ ?_
  · simp
  · simp only [List.mem_filterMap]
    exact ⟨fun h r hr s hs => h s ⟨r, hr, hs⟩, fun h s ⟨r, hr, hs⟩ => h r hr s hs⟩

theorem Operation.tidy_toJson_iff {o : Operation} (h : (Dict.keys o.responses).Nodup) :
    Tidy o.toJson ↔ ∀ s ∈ o.schemas, Tidy s.toJson := by
  have hresponses : Tidy (.object (o.responses.map fun r => (r.1, r.2.toJson))) ↔
      ∀ r ∈ o.responses, ∀ s ∈ r.2.schema, Tidy s.toJson := by
    simp only [← Response.tidy_toJson_iff]
    simp only [Response.toJson, tidy_object_map_iff]
    exact and_iff_right h
  rw [Operation.forall_mem_schemas, ← hresponses, Operation.toJson, tidy_object_iff_of_not_required]
  · by_cases hp : o.parameters = [] <;> cases o.summary <;> cases o.requestBody <;>
      simp [textIf, memberIf, hp, Parameter.tidy_toJson_iff, RequestBody.tidy_toJson_iff]
  · by_cases hp : o.parameters = [] <;> cases o.summary <;> cases o.requestBody <;>
      simp [textIf, memberIf, hp, RequestBody.toJson]

theorem tidy_pathToJson_iff {operations : Dict Operation} (h : (Dict.keys operations).Nodup) :
    Tidy (pathToJson operations) ↔ ∀ o ∈ operations, Tidy o.2.toJson := by
  simp only [pathToJson, Operation.toJson, tidy_object_map_iff]
  exact and_iff_right h

theorem tidy_toJson_iff {d : Document} (hpaths : Routed d.paths) (hschemas : Dict.Sorted d.schemas) :
    Tidy d.toJson ↔ (∀ o ∈ d.operations, Tidy o.toJson) ∧ ∀ s ∈ d.schemas, Tidy s.2.toJson := by
  have hinfo : Tidy (.object (("title", Json.text d.title) :: ("version", .text d.version) ::
      textIf "description" d.description)) := by
    rw [tidy_object_iff_of_not_required] <;> cases d.description <;> simp [textIf, memberIf]
  have hoperations : Tidy (.object (d.paths.map fun p => (p.1, pathToJson p.2))) ↔
      ∀ o ∈ d.operations, Tidy o.toJson := by
    have hverbs : (∀ p ∈ d.paths, Tidy (pathToJson p.2)) ↔
        ∀ p ∈ d.paths, ∀ o ∈ p.2, Tidy o.2.toJson :=
      forall₂_congr fun p hp => tidy_pathToJson_iff (hpaths.verbs p hp).nodup_keys
    rw [operations, List.forall_mem_flatMap]
    simp only [List.forall_mem_map]
    rw [← hverbs]
    simp only [pathToJson, tidy_object_map_iff]
    exact and_iff_right hpaths.sorted.nodup_keys
  have hcomponents : Tidy (.object (d.schemas.map fun s => (s.1, s.2.toJson))) ↔
      ∀ s ∈ d.schemas, Tidy s.2.toJson := by
    simp only [Schema.toJson, tidy_object_map_iff]
    exact and_iff_right hschemas.nodup_keys
  have htag : ∀ t : Tag, Tidy t.toJson := fun t => by
    simp [Tag.toJson, tidy_object_iff_of_not_required]
  rw [← hoperations, ← hcomponents, toJson, tidy_object_iff_of_not_required (by simp)]
  simp [hinfo, tidy_object_iff_of_not_required, htag]

/-! ## The parts of operations -/

variable (c : Catalog) (subject : String)

/-- The names of the query parameters for a query. -/
def queryNames : Option Payload → List String
  | none => []
  | some (.whole p) =>
    match expand c (maxNesting + 1) p.type with
    | some ps =>
      (ps.filter fun a => (resolve (some c) subject a.type).value.isSome).map (·.name)
    | none => [p.name]
  | some (.fields bs) => bs.map (·.property)

/-- The names of the properties of a body made of fields. -/
def bodyNames : Option Payload → List String
  | some (.fields bs) => bs.map (·.property)
  | _ => []

theorem map_name_fieldParameters (location : BindingSource) (bs : List FieldBinding) :
    (fieldParameters c subject location bs).value.map (·.name) = bs.map (·.property) := by
  rw [value_fieldParameters, List.map_map]
  rfl

theorem map_name_queryParameters (payload : Option Payload) :
    (queryParameters c subject payload).value.map (·.name) = queryNames c subject payload := by
  match payload with
  | none => rfl
  | some (.whole p) =>
    change (wholeQueryParameters c subject p).value.map _ = _
    rw [value_wholeQueryParameters, queryNames]
    cases expand c (maxNesting + 1) p.type with
    | none => rfl
    | some ps =>
      dsimp only
      rw [value_propertyParameters]
      exact map_filterMap_map
        (g := fun a s => (⟨a.name, .query, !a.optional, s, a.docs⟩ : Parameter))
        (h := Parameter.name) (k := Property.name) (fun _ _ => rfl) ps
  | some (.fields bs) => exact map_name_fieldParameters c subject .query bs

theorem tidy_requestBody_iff (payload : Option Payload) :
    (∀ b ∈ (requestBody c subject payload).value, Tidy b.schema.toJson) ↔
      (bodyNames payload).Nodup := by
  match payload with
  | none => exact iff_of_true nofun List.nodup_nil
  | some (.whole p) =>
    refine iff_of_true ?_ List.nodup_nil
    rintro b ⟨⟩
    exact (plain_schemaOf c subject p.type).tidy
  | some (.fields bs) =>
    have hnames : (bodyProperties c subject bs).value.map (·.name) = bs.map (·.property) := by
      rw [value_bodyProperties, List.map_map]
      rfl
    have hobject : Tidy (Schema.object none (bodyProperties c subject bs).value).toJson ↔
        (bs.map (·.property)).Nodup := by
      rw [← hnames]
      exact Schema.tidy_object_iff (plain_bodyProperties c subject bs)
    exact ⟨fun h => hobject.mp (h _ rfl), fun h b hb => by cases hb; exact hobject.mpr h⟩

/-- **The operation of a request is tidy if its body names nothing twice.** -/
theorem tidy_operation_iff (controller : String) (r : Request) :
    Tidy (operation c controller r).value.toJson ↔ (bodyNames r.data).Nodup := by
  have hanswers : (Dict.keys (operation c controller r).value.responses).Nodup :=
    List.nodup_singleton "200"
  rw [Operation.tidy_toJson_iff hanswers, Operation.forall_mem_schemas,
    ← tidy_requestBody_iff c (controller ++ "." ++ r.name)]
  have hparameters : ∀ q ∈ (operation c controller r).value.parameters, Tidy q.schema.toJson := by
    intro q hq
    rcases List.mem_append.mp hq with hq | hq
    · exact (plain_fieldParameters c _ _ _ q hq).tidy
    · exact (plain_queryParameters c _ _ q hq).tidy
  have hresponses : ∀ a ∈ (operation c controller r).value.responses, ∀ s ∈ a.2.schema,
      Tidy s.toJson := by
    intro a ha
    cases List.mem_singleton.mp ha
    exact fun s hs => (plain_resolve (some c) _ r.returnType s hs).tidy
  exact ⟨fun h => h.2.1, fun h => ⟨hparameters, h, hresponses⟩⟩

theorem nodup_map_located {ps : List Parameter} {place : BindingSource}
    (h : ∀ q ∈ ps, q.location = place) :
    (ps.map fun q => (q.name, q.location.text)).Nodup ↔ (ps.map (·.name)).Nodup := by
  have hplace : (ps.map fun q => (q.name, q.location.text)) =
      (ps.map (·.name)).map fun n => (n, place.text) := by
    rw [List.map_map]
    refine List.map_congr_left fun q hq => ?_
    rw [h q hq]
    rfl
  rw [hplace]
  exact List.nodup_map_iff (Prod.mk_left_injective _)

/-- **The parameters of an operation differ in name or place** if its path and its query name nothing
twice. -/
theorem nodup_parameters_iff (controller : String) (r : Request) :
    ((operation c controller r).value.parameters.map fun q => (q.name, q.location.text)).Nodup ↔
      (r.params.map (·.property)).Nodup ∧
        (queryNames c (controller ++ "." ++ r.name) r.query).Nodup := by
  have hpath := location_fieldParameters c (controller ++ "." ++ r.name) .path r.params
  have hquery := location_queryParameters c (controller ++ "." ++ r.name) r.query
  change (List.map _ (_ ++ _)).Nodup ↔ _
  rw [List.map_append, List.nodup_append, nodup_map_located hpath, nodup_map_located hquery,
    map_name_fieldParameters, map_name_queryParameters]
  refine and_congr_right fun _ => and_iff_left fun a ha b hb hab => ?_
  obtain ⟨p, hp, rfl⟩ := List.mem_map.mp ha
  obtain ⟨q, hq, rfl⟩ := List.mem_map.mp hb
  have hplaces : p.location.text = q.location.text := congrArg Prod.snd hab
  rw [hpath p hp, hquery q hq] at hplaces
  exact absurd hplaces (by decide)

/-! ## Whole documents -/

theorem forall_mem_schemas_build (s : DocumentSettings) (controllers : List Controller)
    (p : Schema → Prop) : (∀ t ∈ (build s controllers c).value.schemas, p t.2) ↔
      ∀ d ∈ c.declarations, p (synthesize (some c) d).value := by
  have hsorted := sorted_schemas_build c s controllers
  constructor
  · intro h d hd
    refine h (d.name, _) ((Dict.get?_eq_some_iff hsorted _ _).mp ?_)
    rw [get?_schemas_build, Catalog.get?_eq_some_iff.mpr ⟨hd, rfl⟩]
    rfl
  · rintro h ⟨n, t⟩ ht
    rw [← Dict.get?_eq_some_iff hsorted, get?_schemas_build] at ht
    obtain ⟨d, hd, rfl⟩ := Option.map_eq_some_iff.mp ht
    exact h d (Catalog.get?_eq_some_iff.mp hd).1

/-- **What the document of controllers and a catalog must not repeat**: it is tidy, and the
parameters of each operation differ in name or place, exactly if no declaration describes a property
twice and no request that the document keeps repeats a field of its path, its query or its body. -/
theorem tidy_build_iff (s : DocumentSettings) (controllers : List Controller) :
    let d := (build s controllers c).value
    (emit s controllers c).value = [⟨s.output, d.toJson.pretty ++ "\n"⟩] ∧
    ((Tidy d.toJson ∧ ∀ o ∈ d.operations,
        (o.parameters.map fun q => (q.name, q.location.text)).Nodup) ↔
      (∀ a ∈ c.declarations, (describedNames c a).Nodup) ∧
      ∀ r, Kept (requestsOf controllers) r →
        (r.2.params.map (·.property)).Nodup ∧
        (queryNames c (r.1 ++ "." ++ r.2.name) r.2.query).Nodup ∧
        (bodyNames r.2.data).Nodup) := by
  intro d
  refine ⟨rfl, ?_⟩
  have hroutes : Routed d.paths := (table_build s controllers c).routed
  have hoperations : ∀ p : Operation → Prop, (∀ o ∈ d.operations, p o) ↔
      ∀ r, Kept (requestsOf controllers) r → p (operation c r.1 r.2).value := by
    intro p
    simp only [d, mem_operations_build]
    exact ⟨fun h r hr => h _ ⟨r, hr, rfl⟩, fun h o ⟨r, hr, ho⟩ => ho ▸ h r hr⟩
  have hdescribed := forall_mem_schemas_build c s controllers fun t => Tidy t.toJson
  simp only [tidy_synthesize_iff] at hdescribed
  rw [tidy_toJson_iff hroutes (sorted_schemas_build c s controllers), hoperations, hoperations,
    hdescribed]
  simp only [tidy_operation_iff, nodup_parameters_iff]
  constructor
  · rintro ⟨⟨hbodies, hnames⟩, hparameters⟩
    exact ⟨hnames, fun r hr => ⟨(hparameters r hr).1, (hparameters r hr).2, hbodies r hr⟩⟩
  · rintro ⟨hnames, hfields⟩
    exact ⟨⟨fun r hr => (hfields r hr).2.2, hnames⟩,
      fun r hr => ⟨(hfields r hr).1, (hfields r hr).2.1⟩⟩

/-- An interface that lists a property twice. -/
def repeatingInterface : Declaration :=
  ⟨"User", none, true,
    .interface ⟨[⟨"id", .keyword .string, false, none⟩, ⟨"id", .keyword .number, false, none⟩],
      [], []⟩⟩

/-- A request that binds a field of its query twice. -/
def repeatingRequest : Request :=
  ⟨"list", none, "/users", .get, [], some (.fields [⟨"page", ⟨"first", .keyword .number, false⟩⟩,
    ⟨"page", ⟨"last", .keyword .number, false⟩⟩]), none, .keyword .string⟩

/-- The document of such an interface has two members `id` in one object, and that of such a request
two parameters `page` in the query. -/
theorem not_tidy_repeating :
    let s : DocumentSettings := ⟨"api.json", "API", "1.0.0", none, false⟩
    ¬ Tidy (build s [] (Catalog.build [⟨repeatingInterface, "a.ts"⟩]).value).value.toJson ∧
      ∃ o ∈ (build s [⟨"Users", "a.ts", "/", none, [repeatingRequest]⟩]
          (Catalog.build []).value).value.operations,
        ¬ (o.parameters.map fun q => (q.name, q.location.text)).Nodup := by
  intro s
  constructor
  · intro h
    have hroutes := (table_build s [] (Catalog.build [⟨repeatingInterface, "a.ts"⟩]).value).routed
    have hschemas := ((tidy_toJson_iff hroutes (sorted_schemas_build _ s [])).mp h).2
    have hinterface := (forall_mem_schemas_build _ s [] fun t => Tidy t.toJson).mp hschemas
      repeatingInterface (List.mem_singleton_self _)
    have hnames : describedNames (Catalog.build [⟨repeatingInterface, "a.ts"⟩]).value
        repeatingInterface = ["id", "id"] := by
      rw [describedNames, Catalog.ownProperties, Catalog.inheritedNames,
        Catalog.ancestors_eq (d := repeatingInterface) rfl]
      rfl
    have hnodup := tidy_synthesize_iff.mp hinterface
    rw [hnames] at hnodup
    exact absurd hnodup (by decide)
  · refine ⟨_, mem_operations_build.mpr ⟨("Users", repeatingRequest), rfl, rfl⟩, ?_⟩
    decide

end Document
end ApiSurface
