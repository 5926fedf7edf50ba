import ApiSurface.Proofs.Firsts
import ApiSurface.Proofs.Schema.Plain

/-!
# The shapes of types in normal form

In the shape of a type, each union and each intersection has at least two members, no two of them
alike, in the order in which they first came up, and nothing is said about objects. Members that are
alike once the unions inside them have collapsed count as one.

* `Schema.same_iff`: shapes are compared by their structure;
* `Schema.firsts_distinct`: what is left when repetitions are dropped;
* `Schema.Part`, `TypeExpr.Part`: a shape or a type inside another, at any depth;
* `Normal`: what may stand at each place of the shape of a type;
* **`normal_resolve`**: the shape of a type is in normal form.
-/

namespace ApiSurface

namespace Schema

/-! ## Equality of shapes -/

/-- What passes from the parts of a shape to the shape holds of every shape. -/
@[elab_as_elim]
theorem induction {p : Schema → Prop} (primitive : ∀ q, p (.primitive q))
    (array : ∀ s, p s → p (.array s)) (reference : ∀ n, p (.reference n))
    (anyOf : ∀ ss, (∀ s ∈ ss, p s) → p (.anyOf ss))
    (allOf : ∀ ss, (∀ s ∈ ss, p s) → p (.allOf ss))
    (object : ∀ d (qs : List PropertySchema), (∀ q ∈ qs, p q.schema) → p (.object d qs))
    (unknown : p .unknown) (s : Schema) : p s := by
  refine @Schema.rec p (fun q => p q.schema) (fun ss => ∀ s ∈ ss, p s)
    (fun qs => ∀ q ∈ qs, p q.schema) primitive array reference anyOf allOf object unknown
    (fun _ _ _ _ h => h) ?_ ?_ ?_ ?_ s
  · exact fun t ht => absurd ht List.not_mem_nil
  · intro t ts ht hts
    exact List.forall_mem_cons.mpr ⟨ht, hts⟩
  · exact fun q hq => absurd hq List.not_mem_nil
  · intro q qs hq hqs
    exact List.forall_mem_cons.mpr ⟨hq, hqs⟩

theorem sameAll_iff {as : List Schema} (h : ∀ a ∈ as, ∀ b, same a b = true ↔ a = b)
    (bs : List Schema) : sameAll as bs = true ↔ as = bs := by
  induction as generalizing bs with
  | nil => cases bs <;> simp [sameAll]
  | cons a as ih =>
    obtain ⟨ha, has⟩ := List.forall_mem_cons.mp h
    cases bs with
    | nil => simp [sameAll]
    | cons b bs => simp [sameAll, ha b, ih has bs]

theorem sameProperties_iff {ps : List PropertySchema}
    (h : ∀ p ∈ ps, ∀ b, same p.schema b = true ↔ p.schema = b) (qs : List PropertySchema) :
    sameProperties ps qs = true ↔ ps = qs := by
  induction ps generalizing qs with
  | nil => cases qs <;> simp [sameProperties]
  | cons p ps ih =>
    obtain ⟨hp, hps⟩ := List.forall_mem_cons.mp h
    obtain ⟨name, schema, description, required⟩ := p
    cases qs with
    | nil => simp [sameProperties]
    | cons q qs =>
      obtain ⟨name', schema', description', required'⟩ := q
      simp [sameProperties, hp schema', ih hps qs, and_assoc]

/-- **Shapes are compared by their structure.** -/
theorem same_iff (a b : Schema) : same a b = true ↔ a = b := by
  induction a using Schema.induction generalizing b with
  | primitive q => cases b <;> simp [same]
  | array s ih => cases b <;> simp [same, ih]
  | reference n => cases b <;> simp [same]
  | anyOf ss ih => cases b <;> simp [same, sameAll_iff ih]
  | allOf ss ih => cases b <;> simp [same, sameAll_iff ih]
  | object d qs ih => cases b <;> simp [same, sameProperties_iff ih]
  | unknown => cases b <;> simp [same]

instance : DecidableEq Schema := fun a b => decidable_of_iff _ (same_iff a b)

theorem isAmong_iff {s : Schema} {others : List Schema} : s.isAmong others = true ↔ s ∈ others := by
  simp [isAmong, same_iff]

end Schema

/-! ## Members in the order of their first occurrence -/

/-- **Dropping repetitions** keeps the first of each kind. -/
theorem Schema.firsts_distinct {kept done : List Schema} (h : Firsts kept done)
    (ss : List Schema) : Firsts (distinct kept ss) (done ++ ss) := by
  induction ss generalizing kept done with
  | nil => rwa [distinct, List.append_nil]
  | cons s ss ih =>
    rw [distinct, List.append_cons done]
    split_ifs with hs
    · exact ih (h.skip (isAmong_iff.mp hs))
    · exact ih (h.keep fun hmem => hs (isAmong_iff.mpr hmem))

/-! ## Parts -/

/-- One shape stands somewhere in another. -/
inductive Schema.Part (u : Schema) : Schema → Prop
  | self : Part u u
  | array {s : Schema} : Part u s → Part u (.array s)
  | anyOf {ss : List Schema} {s : Schema} : s ∈ ss → Part u s → Part u (.anyOf ss)
  | allOf {ss : List Schema} {s : Schema} : s ∈ ss → Part u s → Part u (.allOf ss)
  | object {d : Option String} {ps : List PropertySchema} {p : PropertySchema} :
    p ∈ ps → Part u p.schema → Part u (.object d ps)

/-- One type stands in another where the shape of a type looks: in arrays, unions, intersections and
arguments. -/
inductive TypeExpr.Part (u : TypeExpr) : TypeExpr → Prop
  | self : Part u u
  | array {t : TypeExpr} : Part u t → Part u (.array t)
  | union {ts : List TypeExpr} {t : TypeExpr} : t ∈ ts → Part u t → Part u (.union ts)
  | intersection {ts : List TypeExpr} {t : TypeExpr} :
    t ∈ ts → Part u t → Part u (.intersection ts)
  | reference {name : String} {arguments : List TypeExpr} {t : TypeExpr} :
    t ∈ arguments → Part u t → Part u (.reference name arguments)

/-! ## Normal form -/

section Resolve

variable (catalog : Option Catalog) (subject : String)

/-- The shapes of those types that have one. -/
def shapesOf (ts : List TypeExpr) : List Schema :=
  ts.filterMap fun t => (resolve catalog subject t).value

/-- What may stand at a place in the shape of a type. A union or an intersection has two members or
more, the shapes of the members of one in the type, each once in the order of their first
occurrence. An object has no description and no properties and is written with its type alone. -/
def NormalNode (t : TypeExpr) : Schema → Prop
  | .anyOf ss => 2 ≤ ss.length ∧ ss.Nodup ∧
    ∃ ms, (TypeExpr.union ms).Part t ∧ Firsts ss (shapesOf catalog subject ms)
  | .allOf ss => 2 ≤ ss.length ∧ ss.Nodup ∧
    ∃ ms, (TypeExpr.intersection ms).Part t ∧ Firsts ss (shapesOf catalog subject ms)
  | .object d ps => d = none ∧ ps = [] ∧
    (Schema.object d ps).toJson = .object [("type", .text "object")]
  | _ => True

variable {catalog subject} {t u : TypeExpr} {s : Schema}

theorem NormalNode.mono (h : ∀ v : TypeExpr, v.Part t → v.Part u)
    (hs : NormalNode catalog subject t s) : NormalNode catalog subject u s := by
  cases s with
  | anyOf ss | allOf ss =>
    obtain ⟨htwo, hnodup, ms, hms, hfirsts⟩ := hs
    exact ⟨htwo, hnodup, ms, h _ hms, hfirsts⟩
  | primitive | array | reference | object | unknown => exact hs

/-- At each place of a shape stands what may stand there in the shape of a type. -/
def Normal (catalog : Option Catalog) (subject : String) (t : TypeExpr) (s : Schema) : Prop :=
  ∀ v : Schema, v.Part s → NormalNode catalog subject t v

theorem Normal.mono (h : ∀ v : TypeExpr, v.Part t → v.Part u)
    (hs : Normal catalog subject t s) : Normal catalog subject u s :=
  fun v hv => (hs v hv).mono h

theorem normal_primitive (q : Primitive) : Normal catalog subject t (.primitive q) := by
  rintro v ⟨⟩
  trivial

theorem normal_reference (n : String) : Normal catalog subject t (.reference n) := by
  rintro v ⟨⟩
  trivial

theorem normal_unknown : Normal catalog subject t .unknown := by
  rintro v ⟨⟩
  trivial

theorem normal_emptyObject : Normal catalog subject t .emptyObject := by
  rintro v (_ | _ | _ | _ | ⟨hp, _⟩)
  · exact ⟨rfl, rfl, rfl⟩
  · exact absurd hp List.not_mem_nil

theorem Normal.array {o : Option Schema} (h : ∀ s ∈ o, Normal catalog subject t s) :
    Normal catalog subject t (.array (o.getD .unknown)) := by
  rintro v (_ | hv)
  · trivial
  · cases o with
    | none => exact normal_unknown v hv
    | some s => exact h s rfl v hv

theorem collapse_eq_some {wrap : List Schema → Schema} {ss : List Schema}
    (h : collapse wrap ss = some s) : ss = [s] ∨ 2 ≤ ss.length ∧ s = wrap ss := by
  match ss with
  | [] => cases h
  | [a] => exact Or.inl (congrArg (fun b => [b]) (Option.some.inj h))
  | a :: b :: rest => exact Or.inr ⟨by simp, (Option.some.inj h).symm⟩

/-- Members in normal form make a union or an intersection in normal form: a single one stands on
its own, several are new members. -/
theorem normal_collapse {wrap : List Schema → Schema} {ms : List TypeExpr}
    (hms : ∀ m ∈ ms, ∀ s ∈ (resolve catalog subject m).value, Normal catalog subject t s)
    (hwrap : ∀ ss, 2 ≤ ss.length → Firsts ss (shapesOf catalog subject ms) →
      (∀ s ∈ ss, Normal catalog subject t s) → Normal catalog subject t (wrap ss)) :
    ∀ s ∈ collapse wrap (Schema.distinct [] (resolveAll catalog subject ms).value),
      Normal catalog subject t s := by
  intro s hs
  rw [value_resolveAll] at hs
  have hfirsts := Schema.firsts_distinct firsts_nil (shapesOf catalog subject ms)
  have hmembers : ∀ s ∈ Schema.distinct [] (shapesOf catalog subject ms),
      Normal catalog subject t s := by
    intro s hs
    obtain ⟨m, hm, hmember⟩ := List.mem_filterMap.mp ((hfirsts.mem_iff s).mp hs)
    exact hms m hm s hmember
  rcases collapse_eq_some hs with hone | ⟨htwo, rfl⟩
  · exact hmembers s (by rw [shapesOf, hone]; exact List.mem_singleton_self s)
  · exact hwrap _ htwo hfirsts hmembers

theorem normal_resolve_reference (name : String) {arguments : List TypeExpr}
    (ih : ∀ a ∈ arguments, ∀ s ∈ (resolve catalog subject a).value,
      Normal catalog subject (.reference name arguments) s) :
    ∀ s ∈ (resolve catalog subject (.reference name arguments)).value,
      Normal catalog subject (.reference name arguments) s := by
  match arguments with
  | [] =>
    rw [resolve]
    unfold resolveName
    split_ifs
    · rintro s ⟨⟩
      exact normal_primitive _
    · rintro s ⟨⟩
      exact normal_reference _
    · rintro s ⟨⟩
      exact normal_unknown
  | [a] =>
    have ha := ih a List.mem_cons_self
    rw [resolve]
    split_ifs
    · exact ha
    · rintro s ⟨⟩
      exact .array ha
    · rintro s ⟨⟩
      exact normal_emptyObject
  | a :: b :: rest =>
    rw [resolve]
    · rintro s ⟨⟩
      exact normal_emptyObject
    all_goals simp

/-- **The shape of a type is in normal form**, with and without a catalog. -/
theorem normal_resolve (t : TypeExpr) :
    ∀ s ∈ (resolve catalog subject t).value, Normal catalog subject t s := by
  induction t with
  | keyword k => rw [resolve]; rintro s ⟨⟩; exact normal_primitive _
  | literal v => rw [resolve]; rintro s ⟨⟩; exact normal_primitive _
  | undefined => rw [resolve]; rintro s ⟨⟩
  | null => rw [resolve]; rintro s ⟨⟩
  | void => rw [resolve]; rintro s ⟨⟩
  | any => rw [resolve]; rintro s ⟨⟩; exact normal_unknown
  | unknown => rw [resolve]; rintro s ⟨⟩; exact normal_unknown
  | typeParameter name => rw [resolve]; rintro s ⟨⟩; exact normal_unknown
  | object ms => rw [resolve]; rintro s ⟨⟩; exact normal_emptyObject
  | array e ih =>
    rw [resolve]
    rintro s ⟨⟩
    exact .array fun s hs => (ih s hs).mono fun _ => .array
  | union ms ih =>
    rw [resolve]
    refine normal_collapse (fun m hm s hs => (ih m hm s hs).mono fun _ => .union hm) ?_
    rintro ss htwo hfirsts hss v (_ | _ | ⟨hs, hv⟩)
    · exact ⟨htwo, hfirsts.nodup, ms, .self, hfirsts⟩
    · exact hss _ hs v hv
  | intersection ms ih =>
    rw [resolve]
    refine normal_collapse (fun m hm s hs => (ih m hm s hs).mono fun _ => .intersection hm) ?_
    rintro ss htwo hfirsts hss v (_ | _ | _ | ⟨hs, hv⟩)
    · exact ⟨htwo, hfirsts.nodup, ms, .self, hfirsts⟩
    · exact hss _ hs v hv
  | reference name arguments ih =>
    exact normal_resolve_reference name fun a ha s hs =>
      (ih a ha s hs).mono fun _ => .reference ha

/-- A union with a union that collapses to another member, and with one inside an array. -/
def mixture : TypeExpr :=
  .union [.null,
    .array (.union [.literal (.string "a"), .literal (.number (.natural 1)),
      .literal (.string "b")]),
    .union [.reference "User" [], .undefined], .reference "User" [],
    .object [⟨"id", .keyword .string, false, none⟩]]

theorem normal_resolve_mixture :
    let inner : Schema := .anyOf [.ofKeyword .string, .ofKeyword .number]
    let outer : Schema := .anyOf [.array inner, .reference "User", .emptyObject]
    (resolve none "list" mixture).value = some outer ∧ inner.Part outer ∧
      ∃ ms, (TypeExpr.union ms).Part mixture ∧
        Firsts [.ofKeyword .string, .ofKeyword .number] (shapesOf none "list" ms) := by
  intro inner outer
  have houter : (resolve none "list" mixture).value = some outer := by decide
  have hinner : inner.Part outer := .anyOf List.mem_cons_self (.array .self)
  exact ⟨houter, hinner, (normal_resolve mixture outer houter inner hinner).2.2⟩

end Resolve

end ApiSurface
