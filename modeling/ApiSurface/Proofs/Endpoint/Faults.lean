import ApiSurface.Proofs.Endpoint.Bindings
import ApiSurface.Proofs.Route.Fragment

/-!
# The faults of a surface

Controllers are extracted in one pass over the classes, their handlers and the parameters of these.
The pass comes to an end if nothing on its way is faulty, and stops at the first fault otherwise;
the notes are those of what lies before it.

* `Visit`, `visits`: the stations of the pass, in their order;
* `Visit.Fails`, `Visit.notes`: what is wrong with a station, and what is noted at it;
* `Follows`: an attempt that passes stations up to the first faulty one, with `Follows.bind` for two
  attempts one after the other and a lemma for each part of the pass up to
  `follows_extractControllers`;
* `WellFormed`: nothing is wrong with the classes of some units;
* `Serves`, `Extracted`: the request of a handler and the controller of a class;
* **`extractControllers_outcome`**: when the controllers are extracted, which ones, and which
  failure ends the pass.
-/

namespace ApiSurface

open ApiSurface.Route

/-! ## What is expected -/

/-- The decorator that makes a class a controller. -/
def controllerDecorator? (conv : Convention) (c : ClassDecl) : Option Decorator :=
  c.decorators.find? fun a => a.name = conv.controller

/-- The classes that are controllers, each with its file, in order. -/
def controllerClasses (conv : Convention) (units : List SourceUnit) : List (String × ClassDecl) :=
  (classesOf units).filter fun c => (controllerDecorator? conv c.2).isSome

/-- The methods of a class that are handlers, in order. -/
def handlers (conv : Convention) (c : ClassDecl) : List Method :=
  c.methods.filter fun m => (verbDecorator? conv m).isSome

/-- Nothing is wrong with a controller: its decorator and those of its handlers have arguments that
stand for fragments, and each path parameter names its field. -/
structure ClassDecl.WellFormed (conv : Convention) (c : ClassDecl) (d : Decorator) : Prop where
  base : ∃ s, Denotes true d.first? s
  routes : ∀ m ∈ c.methods, ∀ a verb, verbDecorator? conv m = some (a, verb) →
    ∃ s, Denotes false a.first? s
  fields : ∀ m ∈ c.methods, (verbDecorator? conv m).isSome = true → ∀ p ∈ m.parameters, ∀ a,
    bindingDecorator? conv p = some (a, .path) → ∃ field, a.first? = some (.string field)

/-- Nothing is wrong with the controllers among the classes of some units. -/
def WellFormed (conv : Convention) (units : List SourceUnit) : Prop :=
  ∀ u ∈ units, ∀ c ∈ u.classes, ∀ d, controllerDecorator? conv c = some d → c.WellFormed conv d

/-- A station of the pass: the argument of a controller's decorator, that of a handler's, or a
parameter behind the earlier ones. -/
inductive Visit
  | classArgument (c : ClassDecl) (d : Decorator)
  | routeArgument (controller : String) (m : Method) (d : Decorator)
  | parameter (controller : String) (m : Method) (earlier : List Parameter) (p : Parameter)

/-- The parameters of a handler, in order. -/
def parameterVisits (controller : String) (m : Method) : (earlier ps : List Parameter) → List Visit
  | _, [] => []
  | earlier, p :: ps =>
    .parameter controller m earlier p :: parameterVisits controller m (earlier ++ [p]) ps

/-- A handler and its parameters. -/
def methodVisits (conv : Convention) (controller : String) (m : Method) : List Visit :=
  match verbDecorator? conv m with
  | none => []
  | some (d, _) => .routeArgument controller m d :: parameterVisits controller m [] m.parameters

/-- A controller and its handlers. -/
def classVisits (conv : Convention) (c : String × ClassDecl) : List Visit :=
  match controllerDecorator? conv c.2 with
  | none => []
  | some d => .classArgument c.2 d :: c.2.methods.flatMap (methodVisits conv (controllerName c.1))

/-- The stations of a pass over some units. -/
def visits (conv : Convention) (units : List SourceUnit) : List Visit :=
  (classesOf units).flatMap (classVisits conv)

/-- The note on parameters that all name a field, when one that names none takes the source over. -/
def takeoverNotes (subject : String) (bs : List (Option String × BoundParameter)) (name : String) :
    List Note :=
  if bs ≠ [] ∧ ∀ b ∈ bs, b.1.isSome = true then
    [⟨subject, .discardedBinding, "whole binding '" ++ name ++ "' replaces earlier field bindings",
      ["discarded: " ++ ", ".intercalate (bs.map (·.2.name))]⟩]
  else []

namespace Visit

/-- What is wrong with a station. -/
inductive Fails (conv : Convention) : Visit → Failure → Prop
  | classArgument {c : ClassDecl} {d : Decorator} {found : Argument}
    (h : Offends true d.first? found) :
    Fails conv (.classArgument c d) (.unknownArgument c.name found.describe true)
  | routeArgument {controller : String} {m : Method} {d : Decorator} {found : Argument}
    (h : Offends false d.first? found) : Fails conv (.routeArgument controller m d)
      (.unknownArgument (controller ++ "." ++ m.name) found.describe false)
  | parameter {controller : String} {m : Method} {earlier : List Parameter} {p : Parameter}
    {d : Decorator} (h : bindingDecorator? conv p = some (d, .path))
    (unnamed : ∀ field, d.first? ≠ some (.string field)) :
    Fails conv (.parameter controller m earlier p) (.missingPathField controller m.name p.name)

/-- Nothing is wrong with a station. -/
def Sound (conv : Convention) (v : Visit) : Prop := ∀ e, ¬ v.Fails conv e

/-- What is noted at a station: a parameter may take its source over from those before it. -/
def notes (conv : Convention) : Visit → List Note
  | .parameter controller m earlier p =>
    match bindingDecorator? conv p with
    | some (a, source) =>
      if source ≠ .path ∧ a.field? = none then
        takeoverNotes (controller ++ "." ++ m.name) (boundTo conv source earlier) p.name
      else []
    | none => []
  | _ => []

end Visit

/-- The request of a handler. -/
structure Serves (conv : Convention) (controller baseUrl : String) (m : Method) (r : Request) :
    Prop where
  name : r.name = m.name
  docs : r.docs = m.docs
  route : ∃ a s, verbDecorator? conv m = some (a, r.verb) ∧ Denotes false a.first? s ∧
    r.template = joinUrl baseUrl s
  bindings : ∃ notes, Placed conv (controller ++ "." ++ m.name) m.parameters r notes
  returnType : r.returnType = answerType m

/-- The controller of a class. -/
structure Extracted (conv : Convention) (c : String × ClassDecl) (k : Controller) : Prop where
  name : k.name = controllerName c.1
  source : k.source = c.1
  docs : k.docs = c.2.docs
  base : ∃ d, controllerDecorator? conv c.2 = some d ∧ Denotes true d.first? k.baseUrl
  requests : List.Forall₂ (Serves conv k.name k.baseUrl) (handlers conv c.2) k.requests

/-! ## Passing stations -/

/-- An attempt that passes stations in order: all of them if they are sound, and else those before
the first faulty one, whose failure it ends with. It takes the notes of those that it passes. -/
inductive Follows (conv : Convention) {α : Type} : Attempt α → List Visit → Prop
  | passed {a : α} {vs : List Visit} (sound : ∀ v ∈ vs, v.Sound conv) :
    Follows conv ⟨.ok a, vs.flatMap (Visit.notes conv)⟩ vs
  | stopped {e : Failure} {before : List Visit} {v : Visit} {after : List Visit}
    (sound : ∀ w ∈ before, w.Sound conv) (fails : v.Fails conv e) :
    Follows conv ⟨.error e, before.flatMap (Visit.notes conv)⟩ (before ++ v :: after)

section Passing

variable {conv : Convention} {α β : Type} {m : Attempt α} {f : α → Attempt β} {vs ws : List Visit}

theorem follows_pure (a : α) : Follows conv (pure a : Attempt α) [] :=
  .passed fun _ hv => absurd hv List.not_mem_nil

/-- Two attempts pass the stations of both. -/
theorem Follows.bind (hm : Follows conv m vs)
    (hf : ∀ a, m.result = .ok a → Follows conv (f a) ws) : Follows conv (m >>= f) (vs ++ ws) := by
  cases hm with
  | @passed a vs sound =>
    have hfa := hf a rfl
    rw [Attempt.bind_of_ok rfl]
    generalize f a = n at hfa ⊢
    cases hfa with
    | passed sound' =>
      simp only [← List.flatMap_append]
      exact .passed fun v hv => (List.mem_append.mp hv).elim (sound v) (sound' v)
    | stopped sound' fails =>
      simp only [← List.flatMap_append, ← List.append_assoc]
      exact .stopped (fun v hv => (List.mem_append.mp hv).elim (sound v) (sound' v)) fails
  | stopped sound fails =>
    rw [Attempt.bind_of_error rfl, List.append_assoc, List.cons_append]
    exact .stopped sound fails

theorem Follows.map (hm : Follows conv m vs) (g : α → β) :
    Follows conv (m >>= fun a => pure (g a)) vs := by
  have h := hm.bind (f := fun a => (pure (g a) : Attempt β)) fun a _ => follows_pure (g a)
  rwa [List.append_nil] at h

/-- A step at one sound station takes its notes. -/
theorem follows_singleton {v : Visit} {a : α} {notes : List Note} (sound : v.Sound conv)
    (hnotes : notes = v.notes conv) : Follows conv ⟨.ok a, notes⟩ [v] := by
  have h : notes = [v].flatMap (Visit.notes conv) := by simp [hnotes]
  rw [h]
  exact .passed fun w hw => List.mem_singleton.mp hw ▸ sound

theorem follows_fault {v : Visit} {e : Failure} (fails : v.Fails conv e) :
    Follows conv (⟨.error e, []⟩ : Attempt α) [v] :=
  .stopped (fun _ hw => absurd hw List.not_mem_nil) fails

end Passing

/-! ## Parameters -/

section Parameters

variable {conv : Convention} {controller : String} {m : Method}

theorem field?_eq_some_iff {a : Decorator} {field : String} :
    a.field? = some field ↔ a.first? = some (.string field) := by
  unfold Decorator.field? Decorator.first?
  cases a.arguments with
  | nil => simp
  | cons b _ => cases b <;> simp

/-- A path parameter is sound if it names its field. -/
theorem sound_parameter_iff {earlier : List Parameter} {p : Parameter} :
    (Visit.parameter controller m earlier p).Sound conv ↔
      ∀ a, bindingDecorator? conv p = some (a, .path) → ∃ s, a.first? = some (.string s) := by
  constructor
  · intro sound a ha
    by_contra hnone
    exact sound _ (.parameter ha fun s hs => hnone ⟨s, hs⟩)
  · intro named e he
    cases he with
    | parameter ha unnamed =>
      obtain ⟨s, hs⟩ := named _ ha
      exact unnamed s hs

theorem sound_parameter_of_ne {earlier : List Parameter} {p : Parameter}
    (h : ∀ a, bindingDecorator? conv p ≠ some (a, .path)) :
    (Visit.parameter controller m earlier p).Sound conv :=
  sound_parameter_iff.mpr fun a ha => absurd ha (h a)

/-- Whether the source has been taken over shows in the parameters added to it. -/
theorem Bindings.notes_add_addAll (subject : String) (bs : List (Option String × BoundParameter))
    (p : BoundParameter) :
    ((addAll subject none bs).value.add subject .none p).notes =
      takeoverNotes subject bs p.name := by
  have hnone : Bindings.none = ⟨[], .none⟩ := rfl
  unfold takeoverNotes
  rcases named_or_whole bs with ⟨fs, rfl⟩ | ⟨fs, q, later, rfl⟩
  · have hall : addAll subject none (fs.map FieldBinding.named) = pure ⟨fs, .none⟩ := by
      have := addAll_named subject [] fs []
      rwa [List.append_nil, List.nil_append] at this
    rw [hall]
    cases fs with
    | nil => rfl
    | cons f fs => simp [add, Note.discardedBinding, FieldBinding.named, Function.comp_def]
  · have hwhole : ∃ w, (addAll subject none
        (fs.map FieldBinding.named ++ (.none, q) :: later)).value = ⟨[], some w⟩ := by
      rw [hnone, addAll_named, List.nil_append]
      cases fs with
      | nil => exact ⟨q, congrArg Noted.value (addAll_whole subject [] q later)⟩
      | cons f fs => exact ⟨q, by rw [addAll_takeover subject (List.cons_ne_nil f fs)]⟩
    obtain ⟨w, hw⟩ := hwhole
    rw [hw, if_neg]
    · rfl
    · rintro ⟨-, hall⟩
      have := hall (.none, q) (by simp)
      cases this

theorem Bindings.notes_add_some (subject field : String) (b : Bindings) (p : BoundParameter) :
    (b.add subject (some field) p).notes = [] := by
  unfold add
  cases b.whole <;> rfl

/-- A parameter takes its source over only if it names no field. -/
theorem notes_add_earlier (subject : String) (bs : List (Option String × BoundParameter))
    (field : Option String) (p : BoundParameter) :
    ((Bindings.none.addAll subject bs).value.add subject field p).notes =
      if field = none then takeoverNotes subject bs p.name else [] := by
  cases field with
  | none => exact Bindings.notes_add_addAll subject bs p
  | some field => exact Bindings.notes_add_some subject field _ p

/-- A parameter is bound behind those that were bound before it. -/
theorem follows_bindParameter {earlier : List Parameter} {b : HandlerBindings} {notes : List Note}
    (hb : Bound conv (controller ++ "." ++ m.name) earlier ⟨[], .none, .none⟩ b notes)
    (p : Parameter) :
    Follows conv (bindParameter conv controller m.name b p)
      [.parameter controller m earlier p] := by
  have hbinding := bindingOf?_eq conv p
  unfold bindParameter
  match hd : bindingDecorator? conv p with
  | none =>
    rw [hd] at hbinding
    rw [hbinding]
    refine follows_singleton (sound_parameter_of_ne fun a ha => ?_) ?_
    · rw [hd] at ha
      cases ha
    · simp [Visit.notes, hd]
  | some (d, .path) =>
    rw [hd, Option.map_some] at hbinding
    cases hfield : d.field? with
    | some field =>
      rw [hfield] at hbinding
      rw [hbinding]
      refine follows_singleton (sound_parameter_iff.mpr fun a ha => ?_) ?_
      · rw [hd] at ha
        cases ha
        exact ⟨field, field?_eq_some_iff.mp hfield⟩
      · simp [Visit.notes, hd]
    | none =>
      rw [hfield] at hbinding
      rw [hbinding]
      refine follows_fault (.parameter hd fun s hs => ?_)
      rw [field?_eq_some_iff.mpr hs] at hfield
      cases hfield
  | some (d, .query) =>
    rw [hd, Option.map_some] at hbinding
    rw [hbinding]
    refine follows_singleton (sound_parameter_of_ne fun a ha => ?_) ?_
    · rw [hd] at ha
      cases ha
    · show (b.query.add _ d.field? _).notes ++ [] = _
      rw [List.append_nil, hb.query]
      simpa [Visit.notes, hd] using notes_add_earlier _ _ _ _
  | some (d, .body) =>
    rw [hd, Option.map_some] at hbinding
    rw [hbinding]
    refine follows_singleton (sound_parameter_of_ne fun a ha => ?_) ?_
    · rw [hd] at ha
      cases ha
    · show (b.data.add _ d.field? _).notes ++ [] = _
      rw [List.append_nil, hb.data]
      simpa [Visit.notes, hd] using notes_add_earlier _ _ _ _

theorem follows_bindParameters {earlier : List Parameter} {b : HandlerBindings} {notes : List Note}
    (hb : Bound conv (controller ++ "." ++ m.name) earlier ⟨[], .none, .none⟩ b notes)
    (ps : List Parameter) :
    Follows conv (bindParameters conv controller m.name b ps)
      (parameterVisits controller m earlier ps) := by
  induction ps generalizing earlier b notes with
  | nil => exact follows_pure b
  | cons p ps ih =>
    exact (follows_bindParameter hb p).bind fun c hc => ih (hb.append (bound_bindParameter b p hc))

end Parameters

/-! ## Handlers and controllers -/

section Controllers

variable {conv : Convention} {controller baseUrl : String} {m : Method}

theorem sound_classArgument_iff {c : ClassDecl} {d : Decorator} :
    (Visit.classArgument c d).Sound conv ↔ ∃ s, Denotes true d.first? s := by
  constructor
  · intro sound
    rcases denotes_or_offends true d.first? with hs | ⟨found, hf⟩
    · exact hs
    · exact absurd (.classArgument hf) (sound _)
  · rintro ⟨s, hs⟩ e he
    cases he with
    | classArgument hf => exact not_offends_of_denotes hs hf

theorem sound_routeArgument_iff {d : Decorator} :
    (Visit.routeArgument controller m d).Sound conv ↔ ∃ s, Denotes false d.first? s := by
  constructor
  · intro sound
    rcases denotes_or_offends false d.first? with hs | ⟨found, hf⟩
    · exact hs
    · exact absurd (.routeArgument hf) (sound _)
  · rintro ⟨s, hs⟩ e he
    cases he with
    | routeArgument hf => exact not_offends_of_denotes hs hf

theorem follows_classArgument (c : ClassDecl) (d : Decorator) :
    Follows conv (Attempt.ofExcept (routeFragment d.first? c.name true)) [.classArgument c d] := by
  rcases denotes_or_offends true d.first? with ⟨s, hs⟩ | ⟨found, hf⟩
  · rw [routeFragment_of_denotes hs]
    exact follows_singleton (sound_classArgument_iff.mpr ⟨s, hs⟩) rfl
  · rw [routeFragment_of_offends hf]
    exact follows_fault (.classArgument hf)

theorem follows_routeArgument (d : Decorator) :
    Follows conv (Attempt.ofExcept (routeFragment d.first? (controller ++ "." ++ m.name) false))
      [.routeArgument controller m d] := by
  rcases denotes_or_offends false d.first? with ⟨s, hs⟩ | ⟨found, hf⟩
  · rw [routeFragment_of_denotes hs]
    exact follows_singleton (sound_routeArgument_iff.mpr ⟨s, hs⟩) rfl
  · rw [routeFragment_of_offends hf]
    exact follows_fault (.routeArgument hf)

theorem follows_extractRequest (conv : Convention) (controller baseUrl : String) (m : Method) :
    Follows conv (extractRequest conv controller baseUrl m) (methodVisits conv controller m) := by
  unfold extractRequest methodVisits
  rw [verbOf?_eq]
  match verbDecorator? conv m with
  | none => exact follows_pure none
  | some (d, verb) =>
    refine (follows_routeArgument d).bind fun fragment _ => ?_
    exact (follows_bindParameters (bound_nil _ _) m.parameters).map _

theorem follows_extractRequests (conv : Convention) (controller baseUrl : String)
    (ms : List Method) :
    Follows conv (extractRequests conv controller baseUrl ms)
      (ms.flatMap (methodVisits conv controller)) := by
  induction ms with
  | nil => exact follows_pure []
  | cons m ms ih =>
    rw [List.flatMap_cons]
    exact (follows_extractRequest conv controller baseUrl m).bind fun r _ => ih.map _

theorem extractController_of_none {c : String × ClassDecl}
    (h : controllerDecorator? conv c.2 = none) : extractController conv c.1 c.2 = pure none := by
  unfold controllerDecorator? at h
  rw [extractController, h]

theorem extractController_of_some {c : String × ClassDecl} {d : Decorator}
    (h : controllerDecorator? conv c.2 = some d) :
    extractController conv c.1 c.2 = do
      let base ← Attempt.ofExcept (routeFragment d.first? c.2.name true)
      let requests ← extractRequests conv (controllerName c.1) base c.2.methods
      return some ⟨controllerName c.1, c.1, base, c.2.docs, requests⟩ := by
  unfold controllerDecorator? at h
  rw [extractController, h]

theorem follows_extractController (conv : Convention) (c : String × ClassDecl) :
    Follows conv (extractController conv c.1 c.2) (classVisits conv c) := by
  unfold classVisits
  match h : controllerDecorator? conv c.2 with
  | none =>
    rw [extractController_of_none h]
    exact follows_pure none
  | some d =>
    rw [extractController_of_some h]
    refine (follows_classArgument c.2 d).bind fun base _ => ?_
    exact (follows_extractRequests conv (controllerName c.1) base c.2.methods).map _

theorem follows_extractClasses (conv : Convention) (cs : List (String × ClassDecl)) :
    Follows conv (extractClasses conv cs) (cs.flatMap (classVisits conv)) := by
  induction cs with
  | nil => exact follows_pure []
  | cons c cs ih =>
    obtain ⟨path, c⟩ := c
    rw [List.flatMap_cons]
    exact (follows_extractController conv (path, c)).bind fun k _ => ih.map _

/-- The extraction of controllers passes the stations of its units. -/
theorem follows_extractControllers (conv : Convention) (units : List SourceUnit) :
    Follows conv (extractControllers conv units) (visits conv units) :=
  follows_extractClasses conv (classesOf units)

/-! ## Soundness -/

theorem sound_parameterVisits_iff {earlier ps : List Parameter} :
    (∀ v ∈ parameterVisits controller m earlier ps, v.Sound conv) ↔
      ∀ p ∈ ps, ∀ a, bindingDecorator? conv p = some (a, .path) →
        ∃ field, a.first? = some (.string field) := by
  induction ps generalizing earlier with
  | nil => simp [parameterVisits]
  | cons p ps ih =>
    rw [parameterVisits, List.forall_mem_cons, List.forall_mem_cons, ih, sound_parameter_iff]

theorem sound_methodVisits_iff :
    (∀ v ∈ methodVisits conv controller m, v.Sound conv) ↔
      (∀ a verb, verbDecorator? conv m = some (a, verb) → ∃ s, Denotes false a.first? s) ∧
        ((verbDecorator? conv m).isSome = true → ∀ p ∈ m.parameters, ∀ a,
          bindingDecorator? conv p = some (a, .path) →
            ∃ field, a.first? = some (.string field)) := by
  unfold methodVisits
  match verbDecorator? conv m with
  | none => simp
  | some (d, verb) =>
    rw [List.forall_mem_cons, sound_parameterVisits_iff, sound_routeArgument_iff]
    simp

theorem sound_classVisits_iff {c : String × ClassDecl} :
    (∀ v ∈ classVisits conv c, v.Sound conv) ↔
      ∀ d, controllerDecorator? conv c.2 = some d → c.2.WellFormed conv d := by
  unfold classVisits
  match controllerDecorator? conv c.2 with
  | none => simp
  | some d =>
    rw [List.forall_mem_cons, sound_classArgument_iff, List.forall_mem_flatMap]
    simp only [sound_methodVisits_iff, Option.some.injEq, forall_eq']
    constructor
    · rintro ⟨base, hms⟩
      exact ⟨base, fun m hm => (hms m hm).1, fun m hm => (hms m hm).2⟩
    · rintro ⟨base, routes, fields⟩
      exact ⟨base, fun m hm => ⟨routes m hm, fields m hm⟩⟩

theorem sound_visits_iff {units : List SourceUnit} :
    (∀ v ∈ visits conv units, v.Sound conv) ↔ WellFormed conv units := by
  unfold visits WellFormed classesOf
  rw [List.forall_mem_flatMap]
  simp only [sound_classVisits_iff, List.forall_mem_flatMap, List.forall_mem_map]

/-! ## Results -/

theorem serves_of_extractRequest {r : Request}
    (h : (extractRequest conv controller baseUrl m).result = .ok (some r)) :
    Serves conv controller baseUrl m r := by
  have hplaced : (verbDecorator? conv m).isSome = true → ∃ notes,
      Placed conv (controller ++ "." ++ m.name) m.parameters r notes := by
    intro hverb
    obtain ⟨r', hr', hplaced⟩ := placed_extractRequest hverb h
    cases hr'
    exact ⟨_, hplaced⟩
  unfold extractRequest at h
  rw [verbOf?_eq] at h
  match hv : verbDecorator? conv m with
  | none =>
    rw [hv] at h
    cases h
  | some (a, verb) =>
    rw [hv] at h hplaced
    obtain ⟨fragment, hfragment, h⟩ := Attempt.exists_of_bind_ok h
    obtain ⟨b, -, h⟩ := Attempt.exists_of_bind_ok h
    cases h
    exact ⟨rfl, rfl, ⟨a, fragment, hv, routeFragment_eq_ok_iff.mp hfragment, rfl⟩, hplaced rfl, rfl⟩

theorem forall₂_extractRequests {ms : List Method} {rs : List Request}
    (h : (extractRequests conv controller baseUrl ms).result = .ok rs) :
    List.Forall₂ (Serves conv controller baseUrl)
      (ms.filter fun m => (verbDecorator? conv m).isSome) rs := by
  induction ms generalizing rs with
  | nil =>
    cases h
    exact .nil
  | cons m ms ih =>
    obtain ⟨o, ho, h⟩ := Attempt.exists_of_bind_ok h
    obtain ⟨rs', hrs', h⟩ := Attempt.exists_of_bind_ok h
    cases h
    cases hv : verbDecorator? conv m with
    | none =>
      have hnone : o = none := by
        unfold extractRequest at ho
        rw [verbOf?_eq, hv] at ho
        cases ho
        rfl
      rw [hnone, List.filter_cons_of_neg (by simp [hv])]
      exact ih hrs'
    | some a =>
      obtain ⟨r, rfl, -⟩ := placed_extractRequest (by simp [hv]) ho
      rw [List.filter_cons_of_pos (by simp [hv])]
      exact .cons (serves_of_extractRequest ho) (ih hrs')

theorem extractController_ok {c : String × ClassDecl} {o : Option Controller}
    (h : (extractController conv c.1 c.2).result = .ok o) :
    (controllerDecorator? conv c.2 = none ∧ o = none) ∨ ∃ k, o = some k ∧ Extracted conv c k := by
  cases hd : controllerDecorator? conv c.2 with
  | none =>
    rw [extractController_of_none hd] at h
    cases h
    exact Or.inl ⟨rfl, rfl⟩
  | some d =>
    rw [extractController_of_some hd] at h
    obtain ⟨base, hbase, h⟩ := Attempt.exists_of_bind_ok h
    obtain ⟨rs, hrs, h⟩ := Attempt.exists_of_bind_ok h
    cases h
    refine Or.inr ⟨_, rfl, rfl, rfl, rfl, ⟨d, hd, routeFragment_eq_ok_iff.mp hbase⟩, ?_⟩
    exact forall₂_extractRequests hrs

theorem forall₂_extractClasses {cs : List (String × ClassDecl)} {ks : List Controller}
    (h : (extractClasses conv cs).result = .ok ks) :
    List.Forall₂ (Extracted conv)
      (cs.filter fun c => (controllerDecorator? conv c.2).isSome) ks := by
  induction cs generalizing ks with
  | nil =>
    cases h
    exact .nil
  | cons c cs ih =>
    obtain ⟨o, ho, h⟩ := Attempt.exists_of_bind_ok h
    obtain ⟨ks', hks', h⟩ := Attempt.exists_of_bind_ok h
    cases h
    rcases extractController_ok ho with ⟨hd, rfl⟩ | ⟨k, rfl, hk⟩
    · rw [List.filter_cons_of_neg (by simp [hd])]
      exact ih hks'
    · obtain ⟨d, hd, -⟩ := hk.base
      rw [List.filter_cons_of_pos (by simp [hd])]
      exact .cons hk (ih hks')

end Controllers

/-- **Extraction succeeds exactly on well-formed surfaces.** It then yields the controller of each
decorated class, with the request of each handler, in order, and the notes of all stations.
Otherwise it fails for the first station that is faulty, with the notes of those before it. -/
theorem extractControllers_outcome (conv : Convention) (units : List SourceUnit) :
    ((∃ ks, (extractControllers conv units).result = .ok ks) ↔ WellFormed conv units) ∧
      (∀ ks, (extractControllers conv units).result = .ok ks →
        List.Forall₂ (Extracted conv) (controllerClasses conv units) ks ∧
          (extractControllers conv units).notes =
            (visits conv units).flatMap (Visit.notes conv)) ∧
      ∀ e, (extractControllers conv units).result = .error e →
        ∃ before v after, visits conv units = before ++ v :: after ∧
          (∀ w ∈ before, w.Sound conv) ∧ v.Fails conv e ∧
          (extractControllers conv units).notes = before.flatMap (Visit.notes conv) := by
  have hresults : ∀ ks, (extractControllers conv units).result = .ok ks →
      List.Forall₂ (Extracted conv) (controllerClasses conv units) ks :=
    fun ks hks => forall₂_extractClasses hks
  have hfollows := follows_extractControllers conv units
  rw [← sound_visits_iff]
  generalize extractControllers conv units = run at hfollows hresults ⊢
  generalize visits conv units = vs at hfollows ⊢
  cases hfollows with
  | @passed ks _ sound =>
    refine ⟨⟨fun _ => sound, fun _ => ⟨ks, rfl⟩⟩, fun ks' hks' => ⟨hresults ks' hks', rfl⟩, ?_⟩
    intro e he
    cases he
  | @stopped e before v after sound fails =>
    refine ⟨⟨?_, fun hall => ?_⟩, ?_, ?_⟩
    · rintro ⟨ks, hks⟩
      cases hks
    · exact absurd fails (hall v (List.mem_append_right before List.mem_cons_self) e)
    · intro ks hks
      cases hks
    · intro e' he'
      cases he'
      exact ⟨before, v, after, rfl, sound, fails, rfl⟩

end ApiSurface
