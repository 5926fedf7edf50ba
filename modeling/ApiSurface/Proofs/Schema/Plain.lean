import ApiSurface.Proofs.Source.TypeExpr
import ApiSurface.Schema.Resolve
import Mathlib.Tactic.SplitIfs

/-!
# The schemas of types

Types are resolved to schemas that describe no properties and refer only to names that the type
mentions and that are known. Only the schemas of declarations are richer.

* `value_resolveAll`, `value_synthesizeProperties`: the schemas of members and of properties;
* `Schema.Plain`: the shapes that types have;
* **`plain_resolve`**: a type is resolved to a plain shape.
-/

namespace ApiSurface

/-! ## Schemas of several types -/

theorem value_resolveAll (catalog : Option Catalog) (subject : String) (ts : List TypeExpr) :
    (resolveAll catalog subject ts).value =
      ts.filterMap fun t => (resolve catalog subject t).value := by
  induction ts with
  | nil => rw [resolveAll]; rfl
  | cons t ts ih =>
    rw [resolveAll]
    simp only [Noted.value_bind, Noted.value_pure, ih, List.filterMap_cons]
    cases (resolve catalog subject t).value <;> rfl

theorem value_synthesizeProperties (catalog : Option Catalog) (owner : String)
    (ps : List Property) : (synthesizeProperties catalog owner ps).value =
      ps.filterMap fun p => (resolve catalog (owner ++ "." ++ p.name) p.type).value.map fun s =>
        ⟨p.name, s, p.docs, !p.optional⟩ := by
  induction ps with
  | nil => rfl
  | cons p ps ih =>
    rw [synthesizeProperties]
    simp only [Noted.value_bind, Noted.value_pure, ih, List.filterMap_cons]
    cases (resolve catalog (owner ++ "." ++ p.name) p.type).value <;> rfl

theorem mem_distinct {kept ss : List Schema} {s : Schema} (h : s ∈ Schema.distinct kept ss) :
    s ∈ kept ∨ s ∈ ss := by
  induction ss generalizing kept with
  | nil => exact Or.inl h
  | cons t ss ih =>
    rw [Schema.distinct] at h
    split_ifs at h
    · exact (ih h).imp_right (List.mem_cons_of_mem _)
    · rcases ih h with h | h
      · rcases List.mem_append.mp h with h | h
        · exact Or.inl h
        · exact Or.inr (List.mem_singleton.mp h ▸ List.mem_cons_self)
      · exact Or.inr (List.mem_cons_of_mem _ h)

theorem collapse_cases {wrap : List Schema → Schema} {ss : List Schema} {s : Schema}
    (h : collapse wrap ss = some s) : s ∈ ss ∨ s = wrap ss := by
  match ss with
  | [] => cases h
  | [t] => exact Or.inl (List.mem_singleton.mpr (Option.some.inj h).symm)
  | t :: u :: ss => exact Or.inr (Option.some.inj h).symm

/-! ## Plain shapes -/

/-- The shapes that types have: no object in one describes properties, and it refers only to given
names. -/
inductive Schema.Plain (p : String → Prop) : Schema → Prop
  | primitive (q : Primitive) : Plain p (.primitive q)
  | array {s : Schema} : Plain p s → Plain p (.array s)
  | reference {n : String} : p n → Plain p (.reference n)
  | anyOf {ss : List Schema} : (∀ s ∈ ss, Plain p s) → Plain p (.anyOf ss)
  | allOf {ss : List Schema} : (∀ s ∈ ss, Plain p s) → Plain p (.allOf ss)
  | emptyObject : Plain p .emptyObject
  | unknown : Plain p .unknown

theorem Schema.Plain.mono {p q : String → Prop} (hpq : ∀ n, p n → q n) {s : Schema}
    (h : Plain p s) : Plain q s := by
  induction h with
  | primitive r => exact .primitive r
  | array _ ih => exact .array ih
  | reference hn => exact .reference (hpq _ hn)
  | anyOf _ ih => exact .anyOf ih
  | allOf _ ih => exact .allOf ih
  | emptyObject => exact .emptyObject
  | unknown => exact .unknown

theorem Schema.Plain.getD {p : String → Prop} {o : Option Schema} (h : ∀ s ∈ o, Plain p s) :
    Plain p (o.getD .unknown) := by
  cases o with
  | none => exact .unknown
  | some s => exact h s rfl

/-- Members that are plain make a plain union or intersection. -/
theorem plain_collapse {p : String → Prop} {wrap : List Schema → Schema} {ss : List Schema}
    (hwrap : ∀ ts : List Schema, (∀ t ∈ ts, Schema.Plain p t) → Schema.Plain p (wrap ts))
    (hss : ∀ t ∈ ss, Schema.Plain p t) :
    ∀ s ∈ collapse wrap (Schema.distinct [] ss), Schema.Plain p s := by
  intro s hs
  have hdistinct : ∀ t ∈ Schema.distinct [] ss, Schema.Plain p t := fun t ht =>
    hss t ((mem_distinct ht).resolve_left List.not_mem_nil)
  rcases collapse_cases hs with h | rfl
  · exact hdistinct s h
  · exact hwrap _ hdistinct

section Resolve

variable (catalog : Option Catalog) (subject : String)

/-- The names a shape of a type may refer to. -/
def Mentioned (t : TypeExpr) (n : String) : Prop := n ∈ t.references ∧ isKnown catalog n = true

theorem plain_resolveAll {ts : List TypeExpr} {q : String → Prop}
    (h : ∀ t ∈ ts, ∀ s ∈ (resolve catalog subject t).value, Schema.Plain (Mentioned catalog t) s)
    (hq : ∀ t ∈ ts, ∀ n, Mentioned catalog t n → q n) :
    ∀ s ∈ (resolveAll catalog subject ts).value, Schema.Plain q s := by
  intro s hs
  rw [value_resolveAll, List.mem_filterMap] at hs
  obtain ⟨t, ht, hts⟩ := hs
  exact (h t ht s hts).mono (hq t ht)

/-- A reference is resolved to a plain shape if its arguments are. -/
theorem plain_resolve_reference (name : String) {arguments : List TypeExpr}
    (ih : ∀ a ∈ arguments, ∀ s ∈ (resolve catalog subject a).value,
      Schema.Plain (Mentioned catalog a) s) :
    ∀ s ∈ (resolve catalog subject (.reference name arguments)).value,
      Schema.Plain (Mentioned catalog (.reference name arguments)) s := by
  cases arguments with
  | nil =>
    rw [resolve]
    split_ifs with hdate
    · rintro s ⟨⟩
      exact .primitive _
    · unfold resolveName
      split_ifs with hknown
      · rintro s ⟨⟩
        exact .reference ⟨List.mem_cons_self, hknown⟩
      · rintro s ⟨⟩
        exact .unknown
  | cons a rest =>
    cases rest with
    | nil =>
      have hmono : ∀ n, Mentioned catalog a n → Mentioned catalog (.reference name [a]) n :=
        fun n hn => ⟨List.mem_cons_of_mem _ (TypeExpr.mem_referencesOf.mpr
          ⟨a, List.mem_singleton_self a, hn.1⟩), hn.2⟩
      have ha := ih a (List.mem_singleton_self a)
      rw [resolve]
      split_ifs with hpromise hlist
      · exact fun s hs => (ha s hs).mono hmono
      · rintro s ⟨⟩
        exact .array (Schema.Plain.getD fun s hs => (ha s hs).mono hmono)
      · rintro s ⟨⟩
        exact .emptyObject
    | cons b rest =>
      rw [resolve]
      · rintro s ⟨⟩
        exact .emptyObject
      · simp
      · simp

/-- **A type is resolved to a plain shape**, which refers only to known names that the type
mentions. -/
theorem plain_resolve (t : TypeExpr) :
    ∀ s ∈ (resolve catalog subject t).value, Schema.Plain (Mentioned catalog t) s := by
  induction t with
  | keyword k => rw [resolve]; rintro s ⟨⟩; exact .primitive _
  | literal v => rw [resolve]; rintro s ⟨⟩; exact .primitive _
  | undefined => rw [resolve]; rintro s ⟨⟩
  | null => rw [resolve]; rintro s ⟨⟩
  | void => rw [resolve]; rintro s ⟨⟩
  | any => rw [resolve]; rintro s ⟨⟩; exact .unknown
  | unknown => rw [resolve]; rintro s ⟨⟩; exact .unknown
  | typeParameter name => rw [resolve]; rintro s ⟨⟩; exact .unknown
  | object ms => rw [resolve]; rintro s ⟨⟩; exact .emptyObject
  | array e ih =>
    rw [resolve]
    rintro s ⟨⟩
    exact .array (Schema.Plain.getD ih)
  | union ms ih =>
    rw [resolve]
    refine plain_collapse (fun _ => .anyOf)
      (plain_resolveAll catalog subject ih fun m hm n hn => ?_)
    exact ⟨TypeExpr.mem_referencesOf.mpr ⟨m, hm, hn.1⟩, hn.2⟩
  | intersection ms ih =>
    rw [resolve]
    refine plain_collapse (fun _ => .allOf)
      (plain_resolveAll catalog subject ih fun m hm n hn => ?_)
    exact ⟨TypeExpr.mem_referencesOf.mpr ⟨m, hm, hn.1⟩, hn.2⟩
  | reference name arguments ih => exact plain_resolve_reference catalog subject name ih

end Resolve

end ApiSurface
