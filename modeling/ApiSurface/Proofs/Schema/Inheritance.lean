import ApiSurface.Proofs.Catalog.Properties
import ApiSurface.Proofs.Schema.Plain
import Mathlib.Data.List.Permutation

/-!
# Schemas of declarations that inherit

The schema of a declaration describes only the properties that the declaration keeps for itself and
refers to its supertypes for the others. Together with the schemas of its ancestors it describes
them all.

* `Schema.inlineProperties`: what a shape describes itself, without following references;
* `inlineProperties_synthesize`: the schema of a declaration describes the properties that it keeps;
* **`exists_inline_iff`**: with its ancestors, it describes all flattened properties.
-/

namespace ApiSurface

/-! ## What a shape describes itself -/

namespace Schema

mutual

/-- The properties that a shape describes itself, as an object or in objects among its parts. -/
def inlineProperties : Schema → List PropertySchema
  | object _ properties => properties
  | allOf members => inlinePropertiesOf members
  | _ => []

/-- The properties that parts describe themselves. -/
def inlinePropertiesOf : List Schema → List PropertySchema
  | [] => []
  | s :: ss => s.inlineProperties ++ inlinePropertiesOf ss

end

/-- The names of the properties that a shape describes itself. -/
def inlineNames (s : Schema) : List String := s.inlineProperties.map (·.name)

@[simp] theorem inlinePropertiesOf_eq (ss : List Schema) :
    inlinePropertiesOf ss = ss.flatMap inlineProperties := by
  induction ss with
  | nil => rw [inlinePropertiesOf, List.flatMap_nil]
  | cons s ss ih => rw [inlinePropertiesOf, ih, List.flatMap_cons]

/-- A plain shape describes no properties. -/
theorem Plain.inlineProperties_eq_nil {p : String → Prop} {s : Schema} (h : Plain p s) :
    s.inlineProperties = [] := by
  induction h with
  | allOf _ ih => rw [inlineProperties, inlinePropertiesOf_eq, List.flatMap_eq_nil_iff]; exact ih
  | primitive _ => rw [inlineProperties] <;> simp
  | array _ _ => rw [inlineProperties] <;> simp
  | reference _ => rw [inlineProperties] <;> simp
  | anyOf _ _ => rw [inlineProperties] <;> simp
  | emptyObject => rw [Schema.emptyObject, inlineProperties]
  | unknown => rw [inlineProperties] <;> simp

/-- References beside an object add nothing to what it describes. -/
theorem inlineProperties_allOf_object (names : List String) (docs : Option String)
    (ps : List PropertySchema) :
    (allOf (names.map reference ++ [object docs ps])).inlineProperties = ps := by
  have href : (names.map reference).flatMap inlineProperties = [] := by
    rw [List.flatMap_eq_nil_iff]
    intro s hs
    obtain ⟨n, -, rfl⟩ := List.mem_map.mp hs
    rw [inlineProperties] <;> simp
  rw [inlineProperties, inlinePropertiesOf_eq, List.flatMap_append, href,
    List.nil_append, List.flatMap_singleton, inlineProperties]

end Schema

/-! ## What the schema of a declaration describes -/

section Synthesize

variable (catalog : Option Catalog) {c : Catalog} {d : Declaration}

theorem inlineProperties_synthesizeObject (d : Declaration) :
    (synthesizeObject catalog d).value.inlineProperties =
      (synthesizeProperties catalog d.name (describedProperties catalog d)).value := by
  unfold synthesizeObject
  simp only [Noted.value_bind]
  split_ifs
  · simp only [Noted.value_pure, Schema.inlineProperties]
  · exact Schema.inlineProperties_allOf_object _ _ _

theorem inlineProperties_synthesizeEnum (name : String) (ms : List EnumMember) :
    (synthesizeEnum name ms).value.inlineProperties = [] := by
  have hprimitive : ∀ q : Primitive, (Schema.primitive q).inlineProperties = [] := fun q =>
    (Schema.Plain.primitive (p := fun _ => False) q).inlineProperties_eq_nil
  cases ms with
  | nil => exact hprimitive _
  | cons first rest =>
    unfold synthesizeEnum
    dsimp only
    split_ifs <;> exact hprimitive _

theorem describedProperties_eq_nil (h : d.shape? = none) : describedProperties catalog d = [] := by
  have hproperties : d.properties = [] := by
    unfold Declaration.properties
    rw [h]
    rfl
  cases catalog with
  | none => exact hproperties
  | some c =>
    change c.ownProperties d = []
    rw [Catalog.ownProperties, hproperties, List.filter_nil]

/-- **The schema of a declaration describes those of its own properties that have a schema**, and no
others. -/
theorem inlineProperties_synthesize (d : Declaration) :
    (synthesize catalog d).value.inlineProperties =
      (synthesizeProperties catalog d.name (describedProperties catalog d)).value := by
  unfold synthesize
  split
  · exact inlineProperties_synthesizeObject catalog d
  · exact inlineProperties_synthesizeObject catalog d
  · next hbody =>
    rw [describedProperties_eq_nil catalog (by unfold Declaration.shape?; rw [hbody]),
      inlineProperties_synthesizeEnum]
    rfl
  · next target _ hbody =>
    rw [describedProperties_eq_nil catalog (by unfold Declaration.shape?; rw [hbody])]
    exact (Schema.Plain.getD (plain_resolve catalog d.name target)).inlineProperties_eq_nil

theorem names_synthesizeProperties (owner : String) {ps : List Property}
    (h : ∀ p ∈ ps, (resolve (some c) (owner ++ "." ++ p.name) p.type).value.isSome = true) :
    (synthesizeProperties (some c) owner ps).value.map (·.name) = ps.map (·.name) := by
  rw [value_synthesizeProperties]
  induction ps with
  | nil => rfl
  | cons p ps ih =>
    obtain ⟨s, hs⟩ := Option.isSome_iff_exists.mp (h p List.mem_cons_self)
    rw [List.filterMap_cons, hs, List.map_cons, ← ih fun q hq => h q (List.mem_cons_of_mem _ hq)]
    rfl

/-- If all properties have a schema, the schema of a declaration describes each property that the
declaration keeps. -/
theorem inlineNames_synthesize
    (h : ∀ p ∈ d.properties,
      (resolve (some c) (d.name ++ "." ++ p.name) p.type).value.isSome = true) :
    (synthesize (some c) d).value.inlineNames = (c.ownProperties d).map (·.name) := by
  rw [Schema.inlineNames, inlineProperties_synthesize]
  exact names_synthesizeProperties d.name fun p hp => h p (List.mem_filter.mp hp).1

end Synthesize

/-! ## What it describes together with its ancestors -/

/-- **Splitting schemas loses no inherited property**: in a catalog without reported cycles whose
properties all have a schema, the schemas of a declaration and of its ancestors together describe
exactly the properties in its flattened list. On a cycle, two interfaces that declare a name would
each leave it to the other. -/
theorem exists_inline_iff (es : List Entry) :
    let c := (Catalog.build es).value
    (∀ n ∈ (Catalog.build es).notes, n.code ≠ .inheritanceCycle) →
    (∀ a ∈ c.declarations, ∀ p ∈ a.properties,
      (resolve (some c) (a.name ++ "." ++ p.name) p.type).value.isSome = true) →
    ∀ d ∈ c.declarations, ∀ name,
      (∃ a ∈ d :: c.ancestors d.name, name ∈ (synthesize (some c) a).value.inlineNames) ↔
        name ∈ (c.flattenedProperties d.name).map (·.name) := by
  intro c hcycle hresolve d hd name
  have hacyclic : ∀ n, ¬ c.Above n n :=
    Catalog.not_above_self (Catalog.cycles_build_eq_nil hcycle)
  rw [Catalog.mem_flattenedNames hd, ← Catalog.exists_own_iff hacyclic hd]
  refine exists_congr fun a => and_congr_right fun ha => ?_
  have hdeclared : a ∈ c.declarations := by
    rcases List.mem_cons.mp ha with rfl | ha
    · exact hd
    · exact (Catalog.mem_ancestors.mp ha).1
  rw [inlineNames_synthesize (hresolve a hdeclared)]

/-- A property of texts. -/
def textProperty (name : String) : Property := ⟨name, .keyword .string, false, none⟩

/-- A class below `Left`, `Right` and an alias. -/
def bottom : Declaration := ⟨"Bottom", none, true,
  .classType ⟨[textProperty "id", textProperty "own"], ["Left", "Right", "Other"], []⟩⟩

/-- The class, and above it twice an interface `Top` that declares `id`, and a missing one. -/
def diamond : List Entry :=
  [⟨bottom, "a.ts"⟩,
    ⟨⟨"Left", none, true, .interface ⟨[textProperty "id"], ["Top"], []⟩⟩, "a.ts"⟩,
    ⟨⟨"Right", none, true, .interface ⟨[], ["Top", "Gone"], []⟩⟩, "a.ts"⟩,
    ⟨⟨"Top", none, true, .interface ⟨[textProperty "id"], [], []⟩⟩, "a.ts"⟩,
    ⟨⟨"Other", none, true, .alias (.reference "Top" []) []⟩, "a.ts"⟩]

theorem exists_inline_diamond :
    let c := (Catalog.build diamond).value
    (synthesize (some c) bottom).value.inlineNames = ["own"] ∧
      ∃ a ∈ bottom :: c.ancestors "Bottom", "id" ∈ (synthesize (some c) a).value.inlineNames := by
  intro c
  refine ⟨?_, (exists_inline_iff diamond ?_ ?_ bottom (List.Mem.head _) "id").mpr ?_⟩
  · rw [inlineNames_synthesize (by decide), Catalog.ownProperties, Catalog.inheritedNames,
      Catalog.ancestors_eq (d := bottom) rfl]
    rfl
  · decide
  · decide
  · decide

end ApiSurface
