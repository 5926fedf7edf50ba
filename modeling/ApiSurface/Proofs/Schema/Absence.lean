import ApiSurface.Proofs.Schema.Inheritance
import ApiSurface.Proofs.Schema.NormalForm

/-!
# Types without a schema

`undefined`, `null` and `void` describe no value that could be sent, and neither does a type made of
these alone. Such a type has no schema, and a property of such a type is left out of the schema of
its declaration.

* `TypeExpr.Absent`: the types that describe no value;
* `resolve_eq_none_iff`: they are the types without a schema;
* `Describes`: what the schema of a declaration says about a property;
* **`absent_iff_undescribed`**: which types have no schema, and which properties are left out.
-/

namespace ApiSurface

namespace TypeExpr

/-- The types that describe no value: three keywords, the unions and intersections of such types
alone, also of none, and the promise of such a type. -/
inductive Absent : TypeExpr → Prop
  | undefined : Absent .undefined
  | null : Absent .null
  | void : Absent .void
  | union {ms : List TypeExpr} : (∀ m ∈ ms, Absent m) → Absent (.union ms)
  | intersection {ms : List TypeExpr} : (∀ m ∈ ms, Absent m) → Absent (.intersection ms)
  | promise {a : TypeExpr} : Absent a → Absent (.reference "Promise" [a])

@[simp] theorem absent_union_iff {ms : List TypeExpr} :
    (union ms).Absent ↔ ∀ m ∈ ms, m.Absent :=
  ⟨fun | .union h => h, .union⟩

@[simp] theorem absent_intersection_iff {ms : List TypeExpr} :
    (intersection ms).Absent ↔ ∀ m ∈ ms, m.Absent :=
  ⟨fun | .intersection h => h, .intersection⟩

theorem absent_reference_iff {name : String} {arguments : List TypeExpr} :
    (reference name arguments).Absent ↔ name = "Promise" ∧ ∃ a, arguments = [a] ∧ a.Absent := by
  constructor
  · rintro ⟨⟩
    exact ⟨rfl, _, rfl, ‹_›⟩
  · rintro ⟨rfl, a, rfl, ha⟩
    exact .promise ha

end TypeExpr

/-! ## Which types have no schema -/

theorem collapse_eq_none_iff {wrap : List Schema → Schema} {ss : List Schema} :
    collapse wrap ss = none ↔ ss = [] := by
  match ss with
  | [] => exact ⟨fun _ => rfl, fun _ => rfl⟩
  | [s] => exact ⟨nofun, nofun⟩
  | s :: t :: ss => exact ⟨nofun, nofun⟩

section Resolve

variable (catalog : Option Catalog) (subject : String)

/-- Members leave nothing to wrap if none of them has a schema. -/
theorem collapse_resolveAll_eq_none_iff (wrap : List Schema → Schema) (ms : List TypeExpr) :
    collapse wrap (Schema.distinct [] (resolveAll catalog subject ms).value) = none ↔
      ∀ m ∈ ms, (resolve catalog subject m).value = none := by
  have hfirsts := Schema.firsts_distinct firsts_nil (resolveAll catalog subject ms).value
  rw [collapse_eq_none_iff, List.eq_nil_iff_forall_not_mem]
  simp only [hfirsts.mem_iff, List.nil_append]
  rw [← List.eq_nil_iff_forall_not_mem, value_resolveAll, List.filterMap_eq_nil_iff]

theorem value_resolveName_ne_none (name : String) :
    (resolveName catalog subject name).value ≠ none := by
  unfold resolveName
  by_cases hknown : isKnown catalog name
  · rw [if_pos hknown]
    exact Option.some_ne_none _
  · rw [if_neg hknown]
    exact Option.some_ne_none _

theorem resolve_reference_eq_none_iff (name : String) {arguments : List TypeExpr}
    (ih : ∀ a ∈ arguments, (resolve catalog subject a).value = none ↔ a.Absent) :
    (resolve catalog subject (.reference name arguments)).value = none ↔
      (TypeExpr.reference name arguments).Absent := by
  rw [TypeExpr.absent_reference_iff]
  match arguments with
  | [] =>
    refine iff_of_false ?_ ?_
    · rw [resolve]
      by_cases hdate : name = "Date"
      · rw [if_pos hdate]
        exact Option.some_ne_none _
      · rw [if_neg hdate]
        exact value_resolveName_ne_none catalog subject name
    · rintro ⟨-, a, ha, -⟩
      cases ha
  | [a] =>
    have ha := ih a List.mem_cons_self
    rw [resolve]
    by_cases hpromise : name = "Promise"
    · rw [if_pos hpromise, ha]
      constructor
      · exact fun h => ⟨hpromise, a, rfl, h⟩
      · rintro ⟨-, b, hb, h⟩
        rwa [(List.cons.inj hb).1]
    · rw [if_neg hpromise]
      refine iff_of_false ?_ fun h => hpromise h.1
      by_cases hlist : isListName name
      · rw [if_pos hlist]
        exact Option.some_ne_none _
      · rw [if_neg hlist]
        exact Option.some_ne_none _
  | a :: b :: rest =>
    rw [resolve]
    · refine iff_of_false (Option.some_ne_none _) ?_
      rintro ⟨-, c, hc, -⟩
      cases hc
    all_goals simp

/-- **A type has no schema exactly if it is absent**, with and without a catalog. -/
theorem resolve_eq_none_iff (t : TypeExpr) :
    (resolve catalog subject t).value = none ↔ t.Absent := by
  induction t with
  | undefined => rw [resolve]; exact ⟨fun _ => .undefined, fun _ => rfl⟩
  | null => rw [resolve]; exact ⟨fun _ => .null, fun _ => rfl⟩
  | void => rw [resolve]; exact ⟨fun _ => .void, fun _ => rfl⟩
  | keyword | literal | any | unknown | typeParameter | object | array =>
    rw [resolve]
    exact iff_of_false (Option.some_ne_none _) (by rintro ⟨⟩)
  | union ms ih =>
    rw [resolve, Noted.value_bind, Noted.value_pure, collapse_resolveAll_eq_none_iff,
      TypeExpr.absent_union_iff]
    exact forall₂_congr ih
  | intersection ms ih =>
    rw [resolve, Noted.value_bind, Noted.value_pure, collapse_resolveAll_eq_none_iff,
      TypeExpr.absent_intersection_iff]
    exact forall₂_congr ih
  | reference name arguments ih => exact resolve_reference_eq_none_iff catalog subject name ih

end Resolve

/-- Whether a type is absent can be read off its schema. -/
instance TypeExpr.decidableAbsent : DecidablePred Absent := fun t =>
  decidable_of_iff _ (resolve_eq_none_iff none "" t)

/-! ## Which properties are left out -/

/-- What the schema of a declaration says about a property of the declaration. -/
structure Describes (catalog : Option Catalog) (owner : String) (p : Property)
    (q : PropertySchema) : Prop where
  name : q.name = p.name
  schema : (resolve catalog (owner ++ "." ++ p.name) p.type).value = some q.schema
  description : q.description = p.docs
  required : q.required = !p.optional

theorem describes_synthesizeProperties (catalog : Option Catalog) (owner : String)
    (ps : List Property) :
    List.Forall₂ (Describes catalog owner) (ps.filter fun p => ¬ p.type.Absent)
      (synthesizeProperties catalog owner ps).value := by
  rw [value_synthesizeProperties]
  induction ps with
  | nil => exact .nil
  | cons p ps ih =>
    have habsent := resolve_eq_none_iff catalog (owner ++ "." ++ p.name) p.type
    rw [List.filter_cons, List.filterMap_cons]
    cases hs : (resolve catalog (owner ++ "." ++ p.name) p.type).value with
    | none =>
      rw [if_neg (by simpa using habsent.mp hs)]
      exact ih
    | some s =>
      have hpresent : ¬ p.type.Absent := fun h => nomatch hs.symm.trans (habsent.mpr h)
      rw [if_pos (by simpa using hpresent)]
      exact .cons ⟨rfl, hs, rfl, rfl⟩ ih

/-- **Exactly the absent types have no schema**: all arrays, objects, primitive types and literals
have one, and all references but the promise of an absent type. The schema of a declaration
describes its own properties in their order, without those of an absent type. -/
theorem absent_iff_undescribed (catalog : Option Catalog) (subject : String) :
    (∀ t, (resolve catalog subject t).value = none ↔ t.Absent) ∧
      (∀ e, (resolve catalog subject (.array e)).value ≠ none) ∧
      (∀ ms, (resolve catalog subject (.object ms)).value ≠ none) ∧
      (∀ k, (resolve catalog subject (.keyword k)).value ≠ none) ∧
      (∀ v, (resolve catalog subject (.literal v)).value ≠ none) ∧
      (∀ name arguments, (resolve catalog subject (.reference name arguments)).value = none ↔
        name = "Promise" ∧ ∃ a : TypeExpr, arguments = [a] ∧ a.Absent) ∧
      ∀ d : Declaration, List.Forall₂ (Describes catalog d.name)
        ((describedProperties catalog d).filter fun p => ¬ p.type.Absent)
        (synthesize catalog d).value.inlineProperties := by
  have hsome : ∀ t : TypeExpr, ¬ t.Absent → (resolve catalog subject t).value ≠ none :=
    fun t ht h => ht ((resolve_eq_none_iff catalog subject t).mp h)
  refine ⟨resolve_eq_none_iff catalog subject, fun _ => hsome _ nofun, fun _ => hsome _ nofun,
    fun _ => hsome _ nofun, fun _ => hsome _ nofun, fun name arguments => ?_, fun d => ?_⟩
  · rw [resolve_eq_none_iff, TypeExpr.absent_reference_iff]
  · rw [inlineProperties_synthesize]
    exact describes_synthesizeProperties catalog d.name _

/-- Absence passes through promises, unions and intersections, but not through arrays. -/
example :
    let t : TypeExpr := .reference "Promise" [.union [.null, .intersection [], .undefined]]
    (resolve none "find" t).value = none ∧
      (resolve none "find" (.array t)).value = some (.array .unknown) := by
  decide

end ApiSurface
