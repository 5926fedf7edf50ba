import ApiSurface.Proofs.Json.Tidy
import ApiSurface.Proofs.Schema.Plain

/-!
# Schemas that describe each property once

A schema object is tidy if no object in it describes a property twice. The shapes of types describe
no properties, so only the schemas of declarations can be untidy.

* `Schema.Plain.tidy`: the shapes of types are tidy;
* `Schema.tidy_object_iff`: an object of plain properties is tidy if their names are different;
* **`tidy_synthesize_iff`**: the schema of a declaration is tidy if it describes no name twice.
-/

namespace ApiSurface

open Json

namespace Schema

theorem toObjects_eq (ss : List Schema) : toObjects ss = ss.map toJson := by
  induction ss with
  | nil => rw [toObjects, List.map_nil]
  | cons s ss ih => rw [toObjects, ih, List.map_cons, toJson]

/-- The members of a shape, and what is said about it. -/
def describedMembers (s : Schema) (docs : Option String) : List (String × Json) :=
  s.toMembers ++ memberIf "description" (docs.map .text)

theorem describedMembers_none (s : Schema) : Json.object (s.describedMembers none) = s.toJson := by
  rw [describedMembers, toJson, Option.map_none, memberIf, List.append_nil]

theorem propertyMembers_eq (ps : List PropertySchema) : propertyMembers ps =
    ps.map fun p => (p.name, .object (p.schema.describedMembers p.description)) := by
  induction ps with
  | nil => rw [propertyMembers, List.map_nil]
  | cons p ps ih =>
    obtain ⟨name, schema, description, required⟩ := p
    rw [propertyMembers, ih, List.map_cons, describedMembers]

/-! ## The shapes of types -/

/-- A description does not spoil members that neither have one nor require anything. -/
theorem tidy_append_description {ms : List (String × Json)}
    (h : ∀ m ∈ ms, m.1 ≠ "description" ∧ m.1 ≠ "required") (docs : Option String) :
    Tidy (.object (ms ++ memberIf "description" (docs.map .text))) ↔
      (ms.map (·.1)).Nodup ∧ ∀ m ∈ ms, Tidy m.2 := by
  have hrequired : ∀ items, ("required", Json.list items) ∉ ms := fun _ hm => (h _ hm).2 rfl
  cases docs with
  | none =>
    rw [Option.map_none, memberIf, List.append_nil, tidy_object_iff_of_not_required hrequired]
  | some docs =>
    have hdescription : ∀ n ∈ ms.map (·.1), n ≠ "description" := by
      intro n hn
      obtain ⟨m, hm, rfl⟩ := List.mem_map.mp hn
      exact (h m hm).1
    rw [Option.map_some, memberIf, tidy_object_iff_of_not_required (by simpa using hrequired),
      List.map_append, List.nodup_append, List.forall_mem_append]
    simpa using fun _ _ => hdescription

variable {q : String → Prop}

theorem tidy_primitive (r : Primitive) (docs : Option String) :
    Tidy (.object ((primitive r).describedMembers docs)) := by
  have hvalues : ∀ v : Literal, Tidy v.toJson := fun v => by cases v <;> simp [Literal.toJson]
  obtain ⟨kind, format, values⟩ := r
  rw [describedMembers, toMembers, tidy_append_description]
  all_goals cases format <;> by_cases h : values = [] <;> simp [memberIf, h, hvalues]

/-- **The shapes of types are tidy**, also with a description. -/
theorem Plain.tidy_described {s : Schema} (h : Plain q s) (docs : Option String) :
    Tidy (.object (s.describedMembers docs)) := by
  induction h generalizing docs with
  | primitive r => exact tidy_primitive r docs
  | array _ ih =>
    have hitems := ih none
    rw [describedMembers_none, toJson] at hitems
    rw [describedMembers, toMembers, tidy_append_description (by simp)]
    simp [hitems]
  | reference _ =>
    rw [describedMembers, toMembers, tidy_append_description (by simp)]
    simp
  | anyOf _ ih | allOf _ ih =>
    have hmembers := fun s hs => describedMembers_none s ▸ ih s hs none
    rw [describedMembers, toMembers, toObjects_eq, tidy_append_description (by simp)]
    simpa using hmembers
  | emptyObject =>
    rw [Schema.emptyObject, describedMembers, toMembers, tidy_append_description]
    all_goals simp [memberIf, textsIfAny]
  | unknown =>
    rw [describedMembers, toMembers, tidy_append_description (by simp)]
    simp

theorem Plain.tidy {s : Schema} (h : Plain q s) : Tidy s.toJson :=
  describedMembers_none s ▸ h.tidy_described none

/-! ## Objects that describe properties -/

theorem mem_textsIfAny {name : String} {values : List String} {m : String × Json} :
    m ∈ textsIfAny name values ↔ values ≠ [] ∧ m = (name, .list (values.map .text)) := by
  cases values <;> simp [textsIfAny]

variable {docs : Option String} {ps : List PropertySchema}

/-- The names of the properties that an object requires. -/
def requiredNames (ps : List PropertySchema) : List String :=
  (ps.filter (·.required)).map (·.name)

theorem sublist_requiredNames : (requiredNames ps).Sublist (ps.map (·.name)) :=
  List.filter_sublist.map _

theorem mem_toMembers_object {m : String × Json} : m ∈ (object docs ps).toMembers ↔
    m = ("type", .text "object") ∨ m ∈ memberIf "description" (docs.map .text) ∨
      (ps ≠ [] ∧ m = ("properties", .object (propertyMembers ps))) ∨
      m ∈ textsIfAny "required" (requiredNames ps) := by
  rw [toMembers, ← requiredNames]
  cases ps <;> simp

theorem nodup_toMembers_object : ((object docs ps).toMembers.map (·.1)).Nodup := by
  rw [toMembers, ← requiredNames]
  generalize requiredNames ps = names
  cases ps <;> cases docs <;> cases names <;> simp [memberIf, textsIfAny]

theorem tidyMembers_object (h : (ps.map (·.name)).Nodup) :
    TidyMembers (object docs ps).toMembers where
  distinct := nodup_toMembers_object
  required items hitems := by
    have hitems : requiredNames ps ≠ [] ∧ items = (requiredNames ps).map .text := by
      simpa [mem_toMembers_object, mem_memberIf, mem_textsIfAny] using hitems
    have hps : ps ≠ [] := by
      rintro rfl
      exact hitems.1 rfl
    refine ⟨_, hitems.2, sublist_requiredNames.nodup h, propertyMembers ps, ?_, fun n hn => ?_⟩
    · exact mem_toMembers_object.mpr (Or.inr (Or.inr (Or.inl ⟨hps, rfl⟩)))
    · rw [propertyMembers_eq, List.map_map]
      exact sublist_requiredNames.subset hn

/-- **An object of plain properties is tidy if their names are different.** -/
theorem tidy_object_iff (h : ∀ p ∈ ps, Plain q p.schema) :
    Tidy (object docs ps).toJson ↔ (ps.map (·.name)).Nodup := by
  have hmember : Tidy (.object (propertyMembers ps)) ↔ (ps.map (·.name)).Nodup := by
    rw [propertyMembers_eq, tidy_object_map_iff]
    exact and_iff_left fun p hp => (h p hp).tidy_described p.description
  rw [toJson, Json.tidy_object_iff]
  constructor
  · rintro ⟨-, htidy⟩
    by_cases hps : ps = []
    · simp [hps]
    · refine hmember.mp (htidy ("properties", _) (mem_toMembers_object.mpr ?_))
      exact Or.inr (Or.inr (Or.inl ⟨hps, rfl⟩))
  · intro hnodup
    refine ⟨tidyMembers_object hnodup, fun m hm => ?_⟩
    rcases mem_toMembers_object.mp hm with rfl | hm | ⟨-, rfl⟩ | hm
    · exact tidy_text _
    · obtain ⟨v, hv, rfl⟩ := mem_memberIf.mp hm
      obtain ⟨text, -, rfl⟩ := Option.map_eq_some_iff.mp hv
      exact tidy_text _
    · exact hmember.mpr hnodup
    · obtain ⟨-, rfl⟩ := mem_textsIfAny.mp hm
      simp

/-- References beside a shape do not spoil it. -/
theorem tidy_allOf_references_iff (names : List String) (s : Schema) :
    Tidy (allOf (names.map reference ++ [s])).toJson ↔ Tidy s.toJson := by
  have href : ∀ n ∈ names, Tidy (reference n).toJson := fun n _ =>
    (Plain.reference (p := fun _ => True) (n := n) trivial).tidy
  have hlist : Tidy (.list ((names.map reference ++ [s]).map toJson)) ↔ Tidy s.toJson := by
    rw [tidy_list_iff, List.map_append, List.forall_mem_append, List.map_map, List.forall_mem_map]
    simpa using fun _ => href
  rw [toJson, toMembers, toObjects_eq, tidy_object_iff_of_not_required (by simp), ← hlist]
  rw [List.forall_mem_singleton]
  exact and_iff_right (List.pairwise_singleton _ _)

end Schema

/-! ## The schemas of declarations -/

theorem map_filterMap_map {α β γ δ : Type} {f : α → Option β} {g : α → β → γ} {h : γ → δ}
    {k : α → δ} (hk : ∀ a b, h (g a b) = k a) (as : List α) :
    (as.filterMap fun a => (f a).map (g a)).map h = (as.filter fun a => (f a).isSome).map k := by
  induction as with
  | nil => rfl
  | cons a as ih => cases hf : f a <;> simp [hf, hk, ih]

section Synthesize

variable {c : Catalog} {d : Declaration}

/-- The names that the schema of a declaration describes: those of the properties that the
declaration keeps and that have a schema. -/
def describedNames (c : Catalog) (d : Declaration) : List String :=
  ((c.ownProperties d).filter fun p =>
    (resolve (some c) (d.name ++ "." ++ p.name) p.type).value.isSome).map (·.name)

theorem map_name_synthesizeProperties (ps : List Property) :
    (synthesizeProperties (some c) d.name ps).value.map (·.name) =
      (ps.filter fun p => (resolve (some c) (d.name ++ "." ++ p.name) p.type).value.isSome).map
        (·.name) := by
  rw [value_synthesizeProperties]
  exact map_filterMap_map (g := fun p s => (⟨p.name, s, p.docs, !p.optional⟩ : PropertySchema))
    (h := PropertySchema.name) (k := Property.name) (fun _ _ => rfl) ps

theorem tidy_synthesizeObject_iff :
    Tidy (synthesizeObject (some c) d).value.toJson ↔ (describedNames c d).Nodup := by
  have hplain : ∀ p ∈ (synthesizeProperties (some c) d.name (c.ownProperties d)).value,
      p.schema.Plain fun _ => True := by
    intro p hp
    rw [value_synthesizeProperties, List.mem_filterMap] at hp
    obtain ⟨a, -, ha⟩ := hp
    obtain ⟨s, hs, rfl⟩ := Option.map_eq_some_iff.mp ha
    exact (plain_resolve (some c) _ a.type s hs).mono fun _ _ => trivial
  have hobject : Tidy (Schema.object d.docs (synthesizeProperties (some c) d.name
      (c.ownProperties d)).value).toJson ↔ (describedNames c d).Nodup := by
    rw [Schema.tidy_object_iff hplain, map_name_synthesizeProperties, describedNames]
  unfold synthesizeObject
  simp only [Noted.value_bind, describedProperties]
  split_ifs
  · exact hobject
  · exact (Schema.tidy_allOf_references_iff _ _).trans hobject

theorem tidy_synthesizeEnum (name : String) (ms : List EnumMember) :
    Tidy (synthesizeEnum name ms).value.toJson := by
  have hprimitive : ∀ r : Primitive, Tidy (Schema.primitive r).toJson := fun r =>
    (Schema.Plain.primitive (p := fun _ => True) r).tidy
  cases ms with
  | nil => exact hprimitive _
  | cons first rest =>
    unfold synthesizeEnum
    dsimp only
    split_ifs <;> exact hprimitive _

/-- **The schema of a declaration is tidy if it describes no name twice.** -/
theorem tidy_synthesize_iff :
    Tidy (synthesize (some c) d).value.toJson ↔ (describedNames c d).Nodup := by
  have hnone : d.shape? = none → (describedNames c d).Nodup := by
    intro hd
    simp [describedNames, Catalog.ownProperties, Declaration.properties, hd]
  unfold synthesize
  split
  · exact tidy_synthesizeObject_iff
  · exact tidy_synthesizeObject_iff
  · next hbody =>
    exact iff_of_true (tidy_synthesizeEnum _ _) (hnone (by unfold Declaration.shape?; rw [hbody]))
  · next target _ hbody =>
    refine iff_of_true ?_ (hnone (by unfold Declaration.shape?; rw [hbody]))
    exact (Schema.Plain.getD (plain_resolve (some c) d.name target)).tidy

end Synthesize

end ApiSurface
