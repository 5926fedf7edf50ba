import ApiSurface.Proofs.Source.ArgumentCodec
import ApiSurface.Proofs.Source.DeclarationCodec

/-!
# Source units as JSON

A source unit that was read is written and read again. What may be lost on the way is an argument of
a decorator that hides an expression; all else comes back.

* `SourceUnit.arguments`: the arguments of all decorators of a unit;
* `ReadFrom`: a list was read item by item from what stands in a value;
* `SourceUnit.ofJson?_toJson_iff`: a unit is read again if its decorators are, and only then;
* **`SourceUnit.reread`**: a unit that was read comes back if no argument hides an expression, and
  none does where no member `$expression` is repeated.
-/

namespace ApiSurface

open ApiSurface.Json ApiSurface.Dict

/-! ## The decorators of a unit -/

/-- The decorators of a method and of its parameters. -/
def Method.allDecorators (m : Method) : List Decorator :=
  m.decorators ++ m.parameters.flatMap (·.decorators)

/-- The decorators of a class, of its methods and of their parameters. -/
def ClassDecl.allDecorators (c : ClassDecl) : List Decorator :=
  c.decorators ++ c.methods.flatMap Method.allDecorators

/-- The arguments of all decorators of a unit. -/
def SourceUnit.arguments (u : SourceUnit) : List Argument :=
  (u.classes.flatMap ClassDecl.allDecorators).flatMap (·.arguments)

/-! ## Where things are read from -/

/-- The list was read item by item from what stands in the value. -/
def ReadFrom {α : Type} (read : Json → Option α) (as : List α) (v : Json) : Prop :=
  ∀ a ∈ as, ∃ w, Json.Part w v ∧ read w = some a

section ReadFrom

variable {α β : Type} {read : Json → Option α} {as : List α} {v : Json}

theorem ReadFrom.append {bs : List α} (ha : ReadFrom read as v) (hb : ReadFrom read bs v) :
    ReadFrom read (as ++ bs) v := by
  intro a hmem
  rcases List.mem_append.mp hmem with hmem | hmem
  · exact ha a hmem
  · exact hb a hmem

theorem ReadFrom.flatMap {inner : Json → Option β} {f : α → List β} (h : ReadFrom read as v)
    (hf : ∀ w a, read w = some a → ReadFrom inner (f a) w) :
    ReadFrom inner (as.flatMap f) v := by
  intro b hb
  obtain ⟨a, ha, hb⟩ := List.mem_flatMap.mp hb
  obtain ⟨w, hw, hread⟩ := h a ha
  obtain ⟨x, hx, hxb⟩ := hf w a hread b hb
  exact ⟨x, hx.trans hw, hxb⟩

theorem readFrom_of_slots {names : List String} {values : List (Option Json)} {slot : Option Json}
    (hv : slots names v = some values) (hslot : slot ∈ values)
    (h : defaulted (listOf? read) [] slot = some as) : ReadFrom read as v := by
  intro a ha
  cases slot with
  | none =>
    cases h
    exact absurd ha List.not_mem_nil
  | some w =>
    obtain ⟨x, hx, hread⟩ := part_of_listOf? h ha
    exact ⟨x, hx.trans (part_of_slots hv hslot), hread⟩

end ReadFrom

theorem Decorator.readFrom {v : Json} {d : Decorator} (h : Decorator.ofJson? v = some d) :
    ReadFrom Argument.ofJson? d.arguments v := by
  rw [ofJson?] at h
  split at h
  · next name arguments hslots =>
    obtain ⟨n, -, h⟩ := Option.bind_eq_some_iff.mp h
    obtain ⟨as, has, h⟩ := Option.bind_eq_some_iff.mp h
    cases h
    exact readFrom_of_slots hslots (by simp) has
  · cases h

theorem Parameter.readFrom {v : Json} {p : Parameter} (h : Parameter.ofJson? v = some p) :
    ReadFrom Decorator.ofJson? p.decorators v := by
  rw [ofJson?] at h
  split at h
  · next name optional decorators type hslots =>
    obtain ⟨n, -, h⟩ := Option.bind_eq_some_iff.mp h
    obtain ⟨o, -, h⟩ := Option.bind_eq_some_iff.mp h
    obtain ⟨ds, hds, h⟩ := Option.bind_eq_some_iff.mp h
    obtain ⟨t, -, h⟩ := Option.bind_eq_some_iff.mp h
    cases h
    exact readFrom_of_slots hslots (by simp) hds
  · cases h

theorem Method.readFrom {v : Json} {m : Method} (h : Method.ofJson? v = some m) :
    ReadFrom Decorator.ofJson? m.allDecorators v := by
  rw [ofJson?] at h
  split at h
  · next name docs decorators parameters returnType hslots =>
    obtain ⟨n, -, h⟩ := Option.bind_eq_some_iff.mp h
    obtain ⟨o, -, h⟩ := Option.bind_eq_some_iff.mp h
    obtain ⟨ds, hds, h⟩ := Option.bind_eq_some_iff.mp h
    obtain ⟨ps, hps, h⟩ := Option.bind_eq_some_iff.mp h
    obtain ⟨r, -, h⟩ := Option.bind_eq_some_iff.mp h
    cases h
    have hown : ReadFrom Decorator.ofJson? ds v := readFrom_of_slots hslots (by simp) hds
    have hparameters : ReadFrom Parameter.ofJson? ps v := readFrom_of_slots hslots (by simp) hps
    exact hown.append (hparameters.flatMap fun _ _ => Parameter.readFrom)
  · cases h

theorem ClassDecl.readFrom {v : Json} {c : ClassDecl} (h : ClassDecl.ofJson? v = some c) :
    ReadFrom Decorator.ofJson? c.allDecorators v := by
  rw [ofJson?] at h
  split at h
  · next name docs decorators methods hslots =>
    obtain ⟨n, -, h⟩ := Option.bind_eq_some_iff.mp h
    obtain ⟨o, -, h⟩ := Option.bind_eq_some_iff.mp h
    obtain ⟨ds, hds, h⟩ := Option.bind_eq_some_iff.mp h
    obtain ⟨ms, hms, h⟩ := Option.bind_eq_some_iff.mp h
    cases h
    have hown : ReadFrom Decorator.ofJson? ds v := readFrom_of_slots hslots (by simp) hds
    have hmethods : ReadFrom Method.ofJson? ms v := readFrom_of_slots hslots (by simp) hms
    exact hown.append (hmethods.flatMap fun _ _ => Method.readFrom)
  · cases h

theorem SourceUnit.readFrom {v : Json} {u : SourceUnit} (h : SourceUnit.ofJson? v = some u) :
    ReadFrom Argument.ofJson? u.arguments v := by
  rw [ofJson?] at h
  split at h
  · next path classes declarations hslots =>
    obtain ⟨p, -, h⟩ := Option.bind_eq_some_iff.mp h
    obtain ⟨cs, hcs, h⟩ := Option.bind_eq_some_iff.mp h
    obtain ⟨ds, -, h⟩ := Option.bind_eq_some_iff.mp h
    cases h
    have hclasses : ReadFrom ClassDecl.ofJson? cs v := readFrom_of_slots hslots (by simp) hcs
    exact (hclasses.flatMap fun _ _ => ClassDecl.readFrom).flatMap fun _ _ => Decorator.readFrom
  · cases h

/-! ## Reading what was written -/

theorem decoratorsOf?_list (ds : List Decorator) :
    decoratorsOf? (some (list (ds.map Decorator.toJson))) = some ds ↔
      ∀ d ∈ ds, Decorator.ofJson? d.toJson = some d := mapM_map_eq_some_iff

theorem nullable_toJson (t : TypeExpr) :
    nullable TypeExpr.ofJson? (some t.toJson) = some (some t) := by
  have hobject : nullable TypeExpr.ofJson? (some t.toJson) =
      (TypeExpr.ofJson? t.toJson).map some := by cases t <;> rfl
  rw [hobject, t.ofJson?_toJson, Option.map_some]

theorem Decorator.ofJson?_toJson_iff (d : Decorator) : Decorator.ofJson? d.toJson = some d ↔
    ∀ a ∈ d.arguments, Argument.ofJson? a.toJson = some a := by
  obtain ⟨name, arguments⟩ := d
  rw [← mapM_map_eq_some_iff]
  simp [toJson, ofJson?, slots, lookup_member, Argument.argumentsToJson_eq,
    Option.bind_eq_some_iff]

theorem Parameter.ofJson?_toJson_iff (p : Parameter) : Parameter.ofJson? p.toJson = some p ↔
    ∀ d ∈ p.decorators, Decorator.ofJson? d.toJson = some d := by
  obtain ⟨name, optional, decorators, type⟩ := p
  rw [← decoratorsOf?_list]
  simp [toJson, ofJson?, slots, lookup_member, type.ofJson?_toJson, Option.bind_eq_some_iff]

theorem Method.ofJson?_toJson_iff (m : Method) : Method.ofJson? m.toJson = some m ↔
    ∀ d ∈ m.allDecorators, Decorator.ofJson? d.toJson = some d := by
  have hparameters : (m.parameters.map Parameter.toJson).mapM Parameter.ofJson? =
      some m.parameters ↔ ∀ p ∈ m.parameters, ∀ d ∈ p.decorators,
        Decorator.ofJson? d.toJson = some d := by
    rw [mapM_map_eq_some_iff]
    exact forall₂_congr fun p _ => p.ofJson?_toJson_iff
  have hall : (∀ d ∈ m.allDecorators, Decorator.ofJson? d.toJson = some d) ↔
      decoratorsOf? (some (list (m.decorators.map Decorator.toJson))) = some m.decorators ∧
        (m.parameters.map Parameter.toJson).mapM Parameter.ofJson? = some m.parameters := by
    rw [allDecorators, List.forall_mem_append, List.forall_mem_flatMap, decoratorsOf?_list,
      hparameters]
  rw [hall]
  obtain ⟨name, docs, decorators, parameters, returnType⟩ := m
  cases docs <;> cases returnType <;>
    simp [toJson, ofJson?, slots, lookup_member, nullable_toJson, memberIf,
      Option.bind_eq_some_iff, -List.mapM_map]

theorem ClassDecl.ofJson?_toJson_iff (c : ClassDecl) : ClassDecl.ofJson? c.toJson = some c ↔
    ∀ d ∈ c.allDecorators, Decorator.ofJson? d.toJson = some d := by
  have hmethods : (c.methods.map Method.toJson).mapM Method.ofJson? = some c.methods ↔
      ∀ m ∈ c.methods, ∀ d ∈ m.allDecorators, Decorator.ofJson? d.toJson = some d := by
    rw [mapM_map_eq_some_iff]
    exact forall₂_congr fun m _ => m.ofJson?_toJson_iff
  have hall : (∀ d ∈ c.allDecorators, Decorator.ofJson? d.toJson = some d) ↔
      decoratorsOf? (some (list (c.decorators.map Decorator.toJson))) = some c.decorators ∧
        (c.methods.map Method.toJson).mapM Method.ofJson? = some c.methods := by
    rw [allDecorators, List.forall_mem_append, List.forall_mem_flatMap, decoratorsOf?_list,
      hmethods]
  rw [hall]
  obtain ⟨name, docs, decorators, methods⟩ := c
  cases docs <;>
    simp [toJson, ofJson?, slots, lookup_member, Option.bind_eq_some_iff, -List.mapM_map]

theorem SourceUnit.ofJson?_toJson_iff (u : SourceUnit) : SourceUnit.ofJson? u.toJson = some u ↔
    ∀ a ∈ u.arguments, Argument.ofJson? a.toJson = some a := by
  have hdeclarations : (u.declarations.map Declaration.toJson).mapM Declaration.ofJson? =
      some u.declarations := mapM_map_eq_some_iff.mpr fun d _ => d.ofJson?_toJson
  have hclasses : (u.classes.map ClassDecl.toJson).mapM ClassDecl.ofJson? = some u.classes ↔
      ∀ a ∈ u.arguments, Argument.ofJson? a.toJson = some a := by
    rw [mapM_map_eq_some_iff, arguments, List.forall_mem_flatMap, List.forall_mem_flatMap]
    refine forall₂_congr fun c _ => ?_
    rw [c.ofJson?_toJson_iff]
    exact forall₂_congr fun d _ => d.ofJson?_toJson_iff
  rw [← hclasses]
  obtain ⟨path, classes, declarations⟩ := u
  simp [toJson, ofJson?, slots, lookup_member, hdeclarations, Option.bind_eq_some_iff,
    -List.mapM_map]

/-- **A unit that was read comes back from its written form if none of its arguments hides an
expression, and only then; none does where no member `$expression` is repeated.** -/
theorem SourceUnit.reread {v : Json} {u : SourceUnit} (h : SourceUnit.ofJson? v = some u) :
    (SourceUnit.ofJson? u.toJson = some u ↔ ∀ a ∈ u.arguments, ¬ a.HidesExpression) ∧
      ((∀ ms, Json.Part (.object ms) v → occurrences "$expression" ms ≤ 1) →
        ∀ a ∈ u.arguments, ¬ a.HidesExpression) := by
  have hfrom := SourceUnit.readFrom h
  refine ⟨?_, fun hone a ha => ?_⟩
  · rw [ofJson?_toJson_iff]
    refine forall₂_congr fun a ha => ?_
    obtain ⟨w, -, hread⟩ := hfrom a ha
    exact Argument.ofJson?_toJson_iff hread
  · obtain ⟨w, hw, hread⟩ := hfrom a ha
    exact Argument.not_hidesExpression (fun ms hms => hone ms (hms.trans hw)) hread

/-! ## Units with one argument -/

/-- A unit with one class, whose only decorator has one argument. -/
def SourceUnit.ofArgument (a : Argument) : SourceUnit :=
  ⟨"users.ts", [⟨"Users", none, [⟨"Controller", [a]⟩], []⟩], []⟩

/-- The JSON of such a unit, with any value in the place of the argument. -/
def SourceUnit.jsonAround (v : Json) : Json :=
  .object [("path", .text "users.ts"), ("classes", .list [.object [("name", .text "Users"),
    ("annotations", .list [.object [("name", .text "Controller"), ("arguments", .list [v])]])]])]

theorem SourceUnit.reread_sample :
    SourceUnit.ofJson? (jsonAround (.object [("path", .object [("$expression", .text "a")])])) =
      some (ofArgument (.object [("path", .expression "a")])) ∧
    SourceUnit.ofJson? (ofArgument (.object [("path", .expression "a")])).toJson =
      some (ofArgument (.object [("path", .expression "a")])) := by
  have hread : SourceUnit.ofJson?
      (jsonAround (.object [("path", .object [("$expression", .text "a")])])) =
        some (ofArgument (.object [("path", .expression "a")])) := rfl
  refine ⟨hread, (SourceUnit.reread hread).1.mpr fun a ha => ?_⟩
  cases List.mem_singleton.mp ha
  rw [Argument.hidesExpression_object_iff]
  rintro (⟨s, hs⟩ | ⟨f, hf, fs, s, hfs, -⟩)
  · simp at hs
  · cases List.mem_singleton.mp hf
    cases hfs

/-- With its member `$expression` repeated, an object is no expression, and what is written for it
is one. -/
theorem SourceUnit.not_reread_of_repeated :
    SourceUnit.ofJson?
      (jsonAround (.object [("$expression", .text "a"), ("$expression", .text "b")])) =
        some (ofArgument (.object [("$expression", .string "b")])) ∧
    SourceUnit.ofJson? (ofArgument (.object [("$expression", .string "b")])).toJson ≠
      some (ofArgument (.object [("$expression", .string "b")])) := by
  refine ⟨rfl, fun h => ?_⟩
  have hread : SourceUnit.ofJson? (ofArgument (.object [("$expression", .string "b")])).toJson =
      some (ofArgument (.expression "b")) := rfl
  rw [hread] at h
  cases h

end ApiSurface
