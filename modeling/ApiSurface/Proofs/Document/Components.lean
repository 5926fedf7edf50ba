import ApiSurface.Proofs.Catalog.Lookup
import ApiSurface.Proofs.Document.Operations
import ApiSurface.Proofs.Document.Routes

/-!
# The components of a document

A document has the schema of each declaration of the catalog under its name, and all its references
lead to one of these.

* `Schema.Grounded`: a shape refers only to declared names;
* `grounded_synthesize`, `grounded_operation`: schemas of declarations and operations are grounded;
* `get?_schemas_build`: what a document holds under the name of a component;
* **`references_build`**: no reference of a document leads nowhere.
-/

namespace ApiSurface

/-! ## References of shapes -/

namespace Schema

@[simp] theorem mem_referencesOf {n : String} {ss : List Schema} :
    n ∈ referencesOf ss ↔ ∃ s ∈ ss, n ∈ s.references := by
  induction ss with
  | nil => simp [referencesOf]
  | cons s ss ih => simp [referencesOf, ih]

@[simp] theorem mem_propertyReferences {n : String} {ps : List PropertySchema} :
    n ∈ propertyReferences ps ↔ ∃ p ∈ ps, n ∈ p.schema.references := by
  induction ps with
  | nil => simp [propertyReferences]
  | cons p ps ih =>
    obtain ⟨_, schema, _, _⟩ := p
    simp [propertyReferences, ih]

/-- A plain shape refers only to the names it may refer to. -/
theorem Plain.references {p : String → Prop} {s : Schema} (h : Plain p s) :
    ∀ n ∈ s.references, p n := by
  induction h with
  | primitive _ => exact fun n hn => absurd hn List.not_mem_nil
  | array _ ih => exact ih
  | reference hn => exact fun n hn' => List.mem_singleton.mp hn' ▸ hn
  | anyOf _ ih =>
    intro n hn
    obtain ⟨s, hs, hn⟩ := mem_referencesOf.mp hn
    exact ih s hs n hn
  | allOf _ ih =>
    intro n hn
    obtain ⟨s, hs, hn⟩ := mem_referencesOf.mp hn
    exact ih s hs n hn
  | emptyObject => exact fun n hn => absurd hn List.not_mem_nil
  | unknown => exact fun n hn => absurd hn List.not_mem_nil

/-- All names that a shape refers to are declared. -/
def Grounded (c : Catalog) (s : Schema) : Prop := ∀ n ∈ s.references, c.contains n = true

variable {c : Catalog}

theorem grounded_primitive {q : Primitive} : Grounded c (.primitive q) :=
  fun _ hn => absurd hn List.not_mem_nil

theorem grounded_unknown : Grounded c .unknown := fun _ hn => absurd hn List.not_mem_nil

theorem grounded_object {d : Option String} {ps : List PropertySchema}
    (h : ∀ p ∈ ps, Grounded c p.schema) : Grounded c (.object d ps) := by
  intro n hn
  obtain ⟨p, hp, hn⟩ := mem_propertyReferences.mp hn
  exact h p hp n hn

theorem grounded_allOf {ss : List Schema} (h : ∀ s ∈ ss, Grounded c s) :
    Grounded c (.allOf ss) := by
  intro n hn
  obtain ⟨s, hs, hn⟩ := mem_referencesOf.mp hn
  exact h s hs n hn

end Schema

open Schema

section Grounded

variable (c : Catalog)

theorem grounded_resolve (subject : String) (t : TypeExpr) :
    ∀ s ∈ (resolve (some c) subject t).value, Grounded c s :=
  fun s hs n hn => ((plain_resolve (some c) subject t s hs).references n hn).2

theorem grounded_getD {o : Option Schema} (h : ∀ s ∈ o, Grounded c s) :
    Grounded c (o.getD .unknown) := by
  cases o with
  | none => exact grounded_unknown
  | some s => exact h s rfl

/-! ## Schemas of declarations -/

theorem grounded_synthesizeProperties (owner : String) (ps : List Property) :
    ∀ p ∈ (synthesizeProperties (some c) owner ps).value, Grounded c p.schema := by
  intro p hp
  rw [value_synthesizeProperties, List.mem_filterMap] at hp
  obtain ⟨q, -, hp⟩ := hp
  obtain ⟨s, hs, rfl⟩ := Option.map_eq_some_iff.mp hp
  exact grounded_resolve c _ q.type s hs

theorem grounded_synthesizeObject (d : Declaration) :
    Grounded c (synthesizeObject (some c) d).value := by
  have hobject : Grounded c (.object d.docs
      (synthesizeProperties (some c) d.name (describedProperties (some c) d)).value) :=
    grounded_object (grounded_synthesizeProperties c _ _)
  unfold synthesizeObject
  simp only [Noted.value_bind]
  split_ifs
  · exact hobject
  · refine grounded_allOf fun s hs => ?_
    rcases List.mem_append.mp hs with hs | hs
    · obtain ⟨n, hn, rfl⟩ := List.mem_map.mp hs
      intro m hm
      rw [List.mem_singleton.mp hm]
      exact (List.mem_filter.mp hn).2
    · rw [List.mem_singleton.mp hs]
      exact hobject

theorem grounded_synthesizeEnum (name : String) (ms : List EnumMember) :
    Grounded c (synthesizeEnum name ms).value := by
  cases ms with
  | nil => exact grounded_primitive
  | cons first rest =>
    unfold synthesizeEnum
    dsimp only
    split_ifs <;> exact grounded_primitive

/-- **The schema of a declaration is grounded.** -/
theorem grounded_synthesize (d : Declaration) : Grounded c (synthesize (some c) d).value := by
  unfold synthesize
  split
  · exact grounded_synthesizeObject c d
  · exact grounded_synthesizeObject c d
  · exact grounded_synthesizeEnum c d.name _
  · exact grounded_getD c (grounded_resolve c d.name _)

/-! ## Schemas of operations -/

namespace Document

theorem grounded_of_plain {s : Schema} (h : s.Plain (Known c)) : Grounded c s := h.references

theorem grounded_requestBody (subject : String) (payload : Option Payload) :
    ∀ b ∈ (requestBody c subject payload).value, Grounded c b.schema := by
  match payload with
  | none => rintro b ⟨⟩
  | some (.whole p) =>
    rintro b ⟨⟩
    exact grounded_of_plain c (plain_schemaOf c subject p.type)
  | some (.fields bs) =>
    rintro b ⟨⟩
    exact grounded_object fun p hp =>
      grounded_of_plain c (plain_bodyProperties c subject bs p hp)

/-- **All schemas of an operation are grounded.** -/
theorem grounded_operation (controller : String) (r : Request) :
    ∀ s ∈ (operation c controller r).value.schemas, Grounded c s := by
  intro s hs
  rw [schemas_operation, List.mem_append, List.mem_append] at hs
  rcases hs with (hs | hs) | hs
  · obtain ⟨p, hp, rfl⟩ := List.mem_map.mp hs
    rcases List.mem_append.mp hp with hp | hp
    · exact grounded_of_plain c (plain_fieldParameters c _ _ _ p hp)
    · exact grounded_of_plain c (plain_queryParameters c _ _ p hp)
  · rw [Option.mem_toList] at hs
    obtain ⟨b, hb, rfl⟩ := Option.map_eq_some_iff.mp hs
    exact grounded_requestBody c _ _ b hb
  · exact grounded_resolve c _ _ s (Option.mem_toList.mp hs)

/-! ## Components by name -/

theorem sorted_addSchemas {schemas : Dict Schema} (h : Dict.Sorted schemas)
    (ds : List Declaration) : Dict.Sorted (addSchemas c schemas ds).value := by
  induction ds generalizing schemas with
  | nil => exact h
  | cons d ds ih => exact ih (h.insert _ _)

theorem get?_addSchemas (schemas : Dict Schema) (ds : List Declaration) (n : String) :
    Dict.get? (addSchemas c schemas ds).value n =
      ((ds.reverse.find? fun d => d.name = n).map fun d => (synthesize (some c) d).value).or
        (Dict.get? schemas n) := by
  induction ds generalizing schemas with
  | nil => rfl
  | cons d ds ih =>
    rw [addSchemas, Noted.value_bind, ih, Dict.get?_insert, List.reverse_cons, List.find?_append,
      Option.map_or, Option.or_assoc]
    congr 1
    by_cases hn : n = d.name
    · simp [hn]
    · simp [hn, Ne.symm hn]

theorem sorted_schemas_build (s : DocumentSettings) (controllers : List Controller) :
    Dict.Sorted (build s controllers c).value.schemas :=
  sorted_addSchemas c Dict.sorted_nil c.declarations

/-- **A document holds the schema of each declaration under its name.** -/
theorem get?_schemas_build (s : DocumentSettings) (controllers : List Controller) (n : String) :
    Dict.get? (build s controllers c).value.schemas n =
      (c.get? n).map fun d => (synthesize (some c) d).value := by
  change Dict.get? (addSchemas c [] c.declarations).value n = _
  have hfind : (c.declarations.reverse.find? fun d => d.name = n) = c.get? n := by
    ext d
    rw [find?_eq_some_iff_mem, Catalog.get?_eq_some_iff, List.mem_reverse, decide_eq_true_iff]
    intro x hx y hy hxn hyn
    exact Catalog.eq_of_name_eq (List.mem_reverse.mp hx) (List.mem_reverse.mp hy)
      ((of_decide_eq_true hxn).trans (of_decide_eq_true hyn).symm)
  rw [get?_addSchemas, hfind]
  exact Option.or_none

end Document

end Grounded

namespace Document

/-- **No reference of a document leads nowhere**: each name that an operation or a component refers
to, at any depth, is that of a component. -/
theorem references_build (s : DocumentSettings) (controllers : List Controller)
    (es : List Entry) :
    let d := (build s controllers (Catalog.build es).value).value
    ∀ name ∈ d.references, name ∈ Dict.keys d.schemas := by
  intro d name hname
  have hsorted := sorted_schemas_build (Catalog.build es).value s controllers
  have hget := get?_schemas_build (Catalog.build es).value s controllers
  have hdeclared : (Catalog.build es).value.contains name = true := by
    rcases List.mem_append.mp hname with hname | hname
    · obtain ⟨o, ho, hname⟩ := List.mem_flatMap.mp hname
      obtain ⟨r, -, rfl⟩ := mem_operations_build.mp ho
      obtain ⟨t, ht, hname⟩ := List.mem_flatMap.mp hname
      exact grounded_operation _ r.1 r.2 t ht name hname
    · obtain ⟨⟨n, t⟩, ht, hname⟩ := List.mem_flatMap.mp hname
      rw [← Dict.get?_eq_some_iff hsorted, hget] at ht
      obtain ⟨e, -, rfl⟩ := Option.map_eq_some_iff.mp ht
      exact grounded_synthesize _ e name hname
  rw [Catalog.contains_eq_isSome_get?, Option.isSome_iff_exists] at hdeclared
  obtain ⟨e, he⟩ := hdeclared
  refine Dict.mem_keys.mpr ⟨(synthesize (some (Catalog.build es).value) e).value, ?_⟩
  rw [← Dict.get?_eq_some_iff hsorted, hget, he]
  rfl

end Document

end ApiSurface
