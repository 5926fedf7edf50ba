import ApiSurface.Document.Emit
import ApiSurface.Proofs.Schema.Plain

/-!
# The parts of operations

What operations are made of, apart from the notes taken on the way.

* `value_fieldParameters`, `value_propertyParameters`, `value_bodyProperties`: one part for each
  field or property that has one;
* `value_wholeQueryParameters`: the two forms of a query that one parameter supplies;
* `location_fieldParameters`, `location_queryParameters`: where parameters travel;
* `plain_fieldParameters`, `plain_queryParameters`: the shapes of parameters are plain;
* **`schemas_operation`**: the schemas of an operation.
-/

namespace ApiSurface.Document

variable (c : Catalog) (subject : String)

theorem value_fieldParameters (location : BindingSource) (bs : List FieldBinding) :
    (fieldParameters c subject location bs).value =
      bs.map fun b => (fieldParameter c subject location b).value := by
  induction bs with
  | nil => rfl
  | cons b bs ih =>
    rw [fieldParameters, List.map_cons, ← ih]
    rfl

theorem value_propertyParameters (ps : List Property) :
    (propertyParameters c subject ps).value =
      ps.filterMap fun p => (resolve (some c) subject p.type).value.map fun s =>
        ⟨p.name, .query, !p.optional, s, p.docs⟩ := by
  induction ps with
  | nil => rfl
  | cons p ps ih =>
    rw [propertyParameters]
    simp only [Noted.value_bind, Noted.value_pure, ih, List.filterMap_cons]
    cases (resolve (some c) subject p.type).value <;> rfl

theorem value_wholeQueryParameters (p : BoundParameter) :
    (wholeQueryParameters c subject p).value =
      match expand c (maxNesting + 1) p.type with
      | some ps => (propertyParameters c subject ps).value
      | none => [⟨p.name, .query, !p.optional, (schemaOf c subject p.type).value, none⟩] := by
  unfold wholeQueryParameters
  cases expand c (maxNesting + 1) p.type <;> rfl

theorem value_bodyProperties (bs : List FieldBinding) :
    (bodyProperties c subject bs).value = bs.map fun b =>
      ⟨b.property, (schemaOf c subject b.parameter.type).value, none, !b.parameter.optional⟩ := by
  induction bs with
  | nil => rfl
  | cons b bs ih =>
    rw [bodyProperties, List.map_cons, ← ih]
    rfl

/-! ## Places -/

theorem location_fieldParameters (location : BindingSource) (bs : List FieldBinding) :
    ∀ q ∈ (fieldParameters c subject location bs).value, q.location = location := by
  intro q hq
  rw [value_fieldParameters] at hq
  obtain ⟨b, -, rfl⟩ := List.mem_map.mp hq
  rfl

theorem location_queryParameters (payload : Option Payload) :
    ∀ q ∈ (queryParameters c subject payload).value, q.location = .query := by
  intro q hq
  match payload with
  | none => cases hq
  | some (.whole p) =>
    change q ∈ (wholeQueryParameters c subject p).value at hq
    rw [value_wholeQueryParameters] at hq
    cases hps : expand c (maxNesting + 1) p.type with
    | none =>
      rw [hps] at hq
      cases List.mem_singleton.mp hq
      rfl
    | some ps =>
      rw [hps] at hq
      simp only [value_propertyParameters, List.mem_filterMap, Option.map_eq_some_iff] at hq
      obtain ⟨a, -, s, -, rfl⟩ := hq
      rfl
  | some (.fields bs) =>
    exact location_fieldParameters c subject .query bs q hq

/-! ## Plain shapes -/

/-- The names that a catalog declares. -/
def Known (n : String) : Prop := c.contains n = true

theorem plain_resolve_known (t : TypeExpr) :
    ∀ s ∈ (resolve (some c) subject t).value, s.Plain (Known c) :=
  fun s hs => (plain_resolve (some c) subject t s hs).mono fun _ hn => hn.2

theorem plain_schemaOf (t : TypeExpr) : (schemaOf c subject t).value.Plain (Known c) :=
  Schema.Plain.getD (plain_resolve_known c subject t)

theorem plain_fieldParameters (location : BindingSource) (bs : List FieldBinding) :
    ∀ p ∈ (fieldParameters c subject location bs).value, p.schema.Plain (Known c) := by
  intro p hp
  rw [value_fieldParameters, List.mem_map] at hp
  obtain ⟨b, -, rfl⟩ := hp
  exact plain_schemaOf c subject b.parameter.type

theorem plain_queryParameters (payload : Option Payload) :
    ∀ p ∈ (queryParameters c subject payload).value, p.schema.Plain (Known c) := by
  match payload with
  | none => exact fun p hp => absurd hp List.not_mem_nil
  | some (.fields bs) => exact plain_fieldParameters c subject .query bs
  | some (.whole q) =>
    intro p hp
    change p ∈ (wholeQueryParameters c subject q).value at hp
    rw [value_wholeQueryParameters] at hp
    cases hq : expand c (maxNesting + 1) q.type with
    | none =>
      rw [hq] at hp
      rw [List.mem_singleton.mp hp]
      exact plain_schemaOf c subject q.type
    | some ps =>
      rw [hq] at hp
      change p ∈ (propertyParameters c subject ps).value at hp
      rw [value_propertyParameters, List.mem_filterMap] at hp
      obtain ⟨r, -, hp⟩ := hp
      obtain ⟨s, hs, rfl⟩ := Option.map_eq_some_iff.mp hp
      exact plain_resolve_known c subject r.type s hs

/-- The properties of a body made of fields have plain shapes. -/
theorem plain_bodyProperties (bs : List FieldBinding) :
    ∀ p ∈ (bodyProperties c subject bs).value, p.schema.Plain (Known c) := by
  intro p hp
  rw [value_bodyProperties, List.mem_map] at hp
  obtain ⟨b, -, rfl⟩ := hp
  exact plain_schemaOf c subject b.parameter.type

/-! ## All schemas -/

/-- **The schemas of an operation** are those of its path fields, its query, its body and its
answer. -/
theorem schemas_operation (controller : String) (r : Request) :
    (operation c controller r).value.schemas =
      ((fieldParameters c (controller ++ "." ++ r.name) .path r.params).value ++
        (queryParameters c (controller ++ "." ++ r.name) r.query).value).map (·.schema) ++
      ((requestBody c (controller ++ "." ++ r.name) r.data).value.map (·.schema)).toList ++
      (resolve (some c) (controller ++ "." ++ r.name) r.returnType).value.toList := by
  unfold Operation.schemas operation
  simp only [Noted.value_bind, Noted.value_pure]
  congr 1

end ApiSurface.Document
