import ApiSurface.Endpoint.Extract
import Mathlib.Data.List.Basic

/-!
# The bindings of a handler

The parameters of a handler travel in three places, and each place is filled from its own parameters
alone: path fields in order, a query or a body either from fields or from the first parameter that
names none.

* `known?`, `bindingDecorator?`, `verbDecorator?`: the first decorator of a parameter or a method
  that the convention knows, which is the one that extraction acts on (`bindingOf?_eq`,
  `verbOf?_eq`);
* `boundTo`: the parameters that travel in one place, each with the field it names;
* `Supplies`: the payload that the parameters of one source make up, with the note on those it
  discards;
* `Bindings.addAll`, `supplies_addAll`: the bindings of one source, added in order;
* `Bound`: what binding parameters does to all places, for one (`bound_bindParameter`) and for all
  (`bound_bindParameters`);
* `Placed`: what a request takes from its parameters, place by place;
* **`extractRequest_bindings`**: the request of a handler is made up so.
-/

namespace ApiSurface

/-! ## What is expected -/

/-- The first of some decorators whose name stands in a table, with what it stands for. -/
def known? {α : Type} (table : List (String × α)) (as : List Decorator) : Option (Decorator × α) :=
  as.findSome? fun a => (table.lookup a.name).map fun x => (a, x)

/-- The first binding decorator of a parameter, with the place that it stands for. -/
def bindingDecorator? (conv : Convention) (p : Parameter) : Option (Decorator × BindingSource) :=
  known? conv.bindings p.decorators

/-- The first verb decorator of a method, with its verb. -/
def verbDecorator? (conv : Convention) (m : Method) : Option (Decorator × Verb) :=
  known? conv.verbs m.decorators

/-- The field that a decorator names: its first argument, if that is a string. -/
def Decorator.field? (a : Decorator) : Option String :=
  match a.arguments with
  | .string field :: _ => some field
  | _ => none

/-- A parameter as it travels in a request. -/
def Parameter.bound (p : Parameter) : BoundParameter := ⟨p.name, p.type, p.optional⟩

/-- The parameters whose first binding decorator stands for a place, in order, each with the field
that the decorator names. -/
def boundTo (conv : Convention) (source : BindingSource) (ps : List Parameter) :
    List (Option String × BoundParameter) :=
  ps.filterMap fun p =>
    ((bindingDecorator? conv p).filter fun b => b.2 = source).map fun b => (b.1.field?, p.bound)

/-- A binding as a parameter with the field it names. -/
def FieldBinding.named (b : FieldBinding) : Option String × BoundParameter :=
  (some b.property, b.parameter)

/-- The payload that the parameters of one source make up: none without any, their fields if all
name one, else the first that names none. Those before it are discarded, with a note. -/
inductive Supplies (subject : String) :
    List (Option String × BoundParameter) → Option Payload → List Note → Prop
  | nothing : Supplies subject [] none []
  | fields {fs : List FieldBinding} (h : fs ≠ []) :
    Supplies subject (fs.map FieldBinding.named) (some (.fields fs)) []
  | whole (p : BoundParameter) (later : List (Option String × BoundParameter)) :
    Supplies subject ((none, p) :: later) (some (.whole p)) []
  | takeover {fs : List FieldBinding} (h : fs ≠ []) (p : BoundParameter)
    (later : List (Option String × BoundParameter)) :
    Supplies subject (fs.map FieldBinding.named ++ (none, p) :: later) (some (.whole p))
      [⟨subject, .discardedBinding,
        "whole binding '" ++ p.name ++ "' replaces earlier field bindings",
        ["discarded: " ++ ", ".intercalate (fs.map (·.parameter.name))]⟩]

/-- Either all parameters name a field, or there is a first one that names none. -/
theorem named_or_whole (bs : List (Option String × BoundParameter)) :
    (∃ fs : List FieldBinding, bs = fs.map FieldBinding.named) ∨
      ∃ (fs : List FieldBinding) (p : BoundParameter) (later : _),
        bs = fs.map FieldBinding.named ++ (none, p) :: later := by
  induction bs with
  | nil => exact Or.inl ⟨[], rfl⟩
  | cons b bs ih =>
    obtain ⟨field, p⟩ := b
    cases field with
    | none => exact Or.inr ⟨[], p, bs, rfl⟩
    | some property =>
      rcases ih with ⟨fs, rfl⟩ | ⟨fs, q, later, rfl⟩
      · exact Or.inl ⟨⟨property, p⟩ :: fs, rfl⟩
      · exact Or.inr ⟨⟨property, p⟩ :: fs, q, later, rfl⟩

namespace Supplies

variable {s t : String} {bs : List (Option String × BoundParameter)}
  {payload payload' : Option Payload} {notes notes' : List Note}

/-- Any parameters make up a payload. -/
theorem total (s : String) (bs : List (Option String × BoundParameter)) :
    ∃ payload notes, Supplies s bs payload notes := by
  rcases named_or_whole bs with ⟨fs, rfl⟩ | ⟨fs, p, later, rfl⟩
  · cases fs with
    | nil => exact ⟨_, _, .nothing⟩
    | cons f fs => exact ⟨_, _, .fields (List.cons_ne_nil f fs)⟩
  · cases fs with
    | nil => exact ⟨_, _, .whole p later⟩
    | cons f fs => exact ⟨_, _, .takeover (List.cons_ne_nil f fs) p later⟩

/-- The payload is the same for every subject of the notes. -/
theorem resubject (h : Supplies s bs payload notes) (t : String) :
    ∃ notes', Supplies t bs payload notes' := by
  cases h with
  | nothing => exact ⟨_, .nothing⟩
  | fields h => exact ⟨_, .fields h⟩
  | whole p later => exact ⟨_, .whole p later⟩
  | takeover h p later => exact ⟨_, .takeover h p later⟩

end Supplies

/-! ## Decorators -/

theorem string?_first? (a : Decorator) : a.first?.bind Argument.string? = a.field? := by
  unfold Decorator.first? Decorator.field?
  cases a.arguments with
  | nil => rfl
  | cons b _ => cases b <;> rfl

/-- Extraction binds a parameter by its first binding decorator. -/
theorem bindingOf?_eq (conv : Convention) (p : Parameter) :
    bindingOf? conv p = (bindingDecorator? conv p).map fun b => (b.2, b.1.field?) := by
  unfold bindingOf? bindingDecorator? known?
  simp only [string?_first?]
  induction p.decorators with
  | nil => rfl
  | cons a as ih =>
    rw [List.findSome?_cons, List.findSome?_cons]
    unfold Convention.binding? at ih ⊢
    cases conv.bindings.lookup a.name with
    | none => exact ih
    | some source => rfl

/-- Extraction takes the verb of a method from its first verb decorator. -/
theorem verbOf?_eq (conv : Convention) (m : Method) : verbOf? conv m = verbDecorator? conv m := rfl

/-! ## One source -/

namespace Bindings

variable (subject : String)

/-- Add bindings in order. -/
def addAll (b : Bindings) : List (Option String × BoundParameter) → Noted Bindings
  | [] => pure b
  | (field, p) :: rest => do
    let b ← b.add subject field p
    addAll b rest

/-- After a binding of the whole source all others are ignored. -/
theorem addAll_whole (fs : List FieldBinding) (w : BoundParameter)
    (bs : List (Option String × BoundParameter)) :
    addAll subject ⟨fs, some w⟩ bs = ⟨⟨fs, some w⟩, []⟩ := by
  induction bs with
  | nil => rfl
  | cons b bs ih =>
    rw [addAll]
    exact ih

/-- Bindings of fields are collected. -/
theorem addAll_named (fs gs : List FieldBinding) (rest : List (Option String × BoundParameter)) :
    addAll subject ⟨fs, .none⟩ (gs.map FieldBinding.named ++ rest) =
      addAll subject ⟨fs ++ gs, .none⟩ rest := by
  induction gs generalizing fs with
  | nil => rw [List.map_nil, List.nil_append, List.append_nil]
  | cons g gs ih =>
    have hstep : addAll subject ⟨fs, .none⟩ ((g :: gs).map FieldBinding.named ++ rest) =
        addAll subject ⟨fs ++ [g], .none⟩ (gs.map FieldBinding.named ++ rest) := rfl
    rw [hstep, ih, List.append_assoc, List.singleton_append]

/-- The first binding of the whole source takes it over. -/
theorem addAll_takeover {fs : List FieldBinding} (hfs : fs ≠ []) (p : BoundParameter)
    (later : List (Option String × BoundParameter)) :
    addAll subject ⟨fs, .none⟩ ((.none, p) :: later) =
      ⟨⟨[], some p⟩, [Note.discardedBinding subject p.name (fs.map (·.parameter.name))]⟩ := by
  have hadd : add ⟨fs, .none⟩ subject .none p =
      ⟨⟨[], some p⟩, [Note.discardedBinding subject p.name (fs.map (·.parameter.name))]⟩ := by
    unfold add
    cases fs with
    | nil => exact absurd rfl hfs
    | cons f fs => rfl
  rw [addAll, hadd]
  show Noted.bind _ _ = _
  rw [Noted.bind, addAll_whole, List.append_nil]

/-- What is expected of the parameters of one source is what adding them gives. -/
theorem addAll_of_supplies {subject : String} {bs : List (Option String × BoundParameter)}
    {payload : Option Payload} {notes : List Note} (h : Supplies subject bs payload notes) :
    (addAll subject none bs).value.payload? = payload ∧ (addAll subject none bs).notes = notes := by
  cases h with
  | nothing => exact ⟨rfl, rfl⟩
  | @fields fs hfs =>
    have hall : addAll subject none (fs.map FieldBinding.named) = pure ⟨fs, .none⟩ := by
      have := addAll_named subject [] fs []
      rwa [List.append_nil, List.nil_append] at this
    rw [hall]
    cases fs with
    | nil => exact absurd rfl hfs
    | cons f fs => exact ⟨rfl, rfl⟩
  | whole p later =>
    have hall : addAll subject none ((.none, p) :: later) = ⟨⟨[], some p⟩, []⟩ :=
      addAll_whole subject [] p later
    rw [hall]
    exact ⟨rfl, rfl⟩
  | @takeover fs hfs p later =>
    have hall := addAll_named subject [] fs ((.none, p) :: later)
    rw [List.nil_append, addAll_takeover subject hfs] at hall
    have hnone : Bindings.none = ⟨[], .none⟩ := rfl
    rw [hnone, hall]
    exact ⟨rfl, rfl⟩

/-- **The bindings of one source make up the payload that is expected.** -/
theorem supplies_addAll (bs : List (Option String × BoundParameter)) :
    Supplies subject bs (addAll subject none bs).value.payload? (addAll subject none bs).notes := by
  obtain ⟨payload, notes, h⟩ := Supplies.total subject bs
  obtain ⟨hpayload, hnotes⟩ := addAll_of_supplies h
  rwa [hpayload, hnotes]

end Bindings

/-- **The parameters of a source decide its payload.** -/
theorem Supplies.payload_eq {s t : String} {bs : List (Option String × BoundParameter)}
    {payload payload' : Option Payload} {notes notes' : List Note} (h : Supplies s bs payload notes)
    (h' : Supplies t bs payload' notes') : payload = payload' := by
  obtain ⟨_, hs⟩ := h'.resubject s
  exact (Bindings.addAll_of_supplies h).1.symm.trans (Bindings.addAll_of_supplies hs).1

/-! ## All three places -/

section Handler

variable {conv : Convention} {controller method : String}

/-- What binding some parameters does to the bindings so far: each place gets the parameters bound
to it, in order, and the notes are those on the query and those on the body. -/
structure Bound (conv : Convention) (subject : String) (ps : List Parameter)
    (b b' : HandlerBindings) (notes : List Note) : Prop where
  params : ∃ fs, boundTo conv .path ps = fs.map FieldBinding.named ∧ b'.params = b.params ++ fs
  query : b'.query = (b.query.addAll subject (boundTo conv .query ps)).value
  data : b'.data = (b.data.addAll subject (boundTo conv .body ps)).value
  notes : notes.Perm ((b.query.addAll subject (boundTo conv .query ps)).notes ++
    (b.data.addAll subject (boundTo conv .body ps)).notes)

theorem boundTo_append (source : BindingSource) (ps qs : List Parameter) :
    boundTo conv source (ps ++ qs) = boundTo conv source ps ++ boundTo conv source qs :=
  List.filterMap_append

theorem boundTo_singleton (source : BindingSource) (p : Parameter) :
    boundTo conv source [p] =
      (((bindingOf? conv p).filter fun b => b.1 = source).map fun b => (b.2, p.bound)).toList := by
  unfold boundTo
  rw [bindingOf?_eq, List.filterMap_cons, List.filterMap_nil]
  match bindingDecorator? conv p with
  | none => rfl
  | some (a, place) => by_cases h : place = source <;> simp [Option.filter, h]

theorem Bindings.addAll_append (subject : String) (b : Bindings)
    (bs cs : List (Option String × BoundParameter)) :
    b.addAll subject (bs ++ cs) =
      ⟨((b.addAll subject bs).value.addAll subject cs).value,
        (b.addAll subject bs).notes ++ ((b.addAll subject bs).value.addAll subject cs).notes⟩ := by
  induction bs generalizing b with
  | nil => rfl
  | cons c bs ih =>
    obtain ⟨field, p⟩ := c
    have hstep : ∀ ds, b.addAll subject ((field, p) :: ds) =
        ⟨((b.add subject field p).value.addAll subject ds).value,
          (b.add subject field p).notes ++
            ((b.add subject field p).value.addAll subject ds).notes⟩ := fun ds => rfl
    rw [List.cons_append, hstep, hstep, ih, List.append_assoc]

theorem bound_nil (subject : String) (b : HandlerBindings) : Bound conv subject [] b b [] :=
  ⟨⟨[], rfl, (List.append_nil _).symm⟩, rfl, rfl, List.Perm.nil⟩

/-- Parameters bound one after another are bound together. -/
theorem Bound.append {subject : String} {ps qs : List Parameter} {b b' b'' : HandlerBindings}
    {notes notes' : List Note} (h : Bound conv subject ps b b' notes)
    (h' : Bound conv subject qs b' b'' notes') :
    Bound conv subject (ps ++ qs) b b'' (notes ++ notes') := by
  obtain ⟨⟨fs, hfs, hb'⟩, hquery, hdata, hnotes⟩ := h
  obtain ⟨⟨gs, hgs, hb''⟩, hquery', hdata', hnotes'⟩ := h'
  rw [hquery] at hquery' hnotes'
  rw [hdata] at hdata' hnotes'
  refine ⟨⟨fs ++ gs, ?_, ?_⟩, ?_, ?_, ?_⟩
  · rw [boundTo_append, hfs, hgs, List.map_append]
  · rw [hb'', hb', List.append_assoc]
  · rw [boundTo_append, Bindings.addAll_append, hquery']
  · rw [boundTo_append, Bindings.addAll_append, hdata']
  · rw [boundTo_append, boundTo_append .body, Bindings.addAll_append, Bindings.addAll_append]
    refine (hnotes.append hnotes').trans ?_
    rw [List.append_assoc, List.append_assoc]
    exact (List.perm_append_comm_assoc _ _ _).append_left _

/-- A parameter is bound in the place that its first binding decorator stands for. -/
theorem bound_bindParameter (b : HandlerBindings) (p : Parameter) {b' : HandlerBindings}
    (h : (bindParameter conv controller method b p).result = .ok b') :
    Bound conv (controller ++ "." ++ method) [p] b b'
      (bindParameter conv controller method b p).notes := by
  have hto := fun source => @boundTo_singleton conv source p
  unfold bindParameter at h ⊢
  match hp : bindingOf? conv p with
  | none =>
    rw [hp] at h hto
    cases h
    refine ⟨⟨[], hto .path, (List.append_nil _).symm⟩, ?_, ?_, ?_⟩
    · rw [hto]; rfl
    · rw [hto]; rfl
    · rw [hto, hto]; exact List.Perm.nil
  | some (.path, some property) =>
    rw [hp] at h hto
    cases h
    refine ⟨⟨[⟨property, p.bound⟩], hto .path, rfl⟩, ?_, ?_, ?_⟩
    · rw [hto]; rfl
    · rw [hto]; rfl
    · rw [hto, hto]; exact List.Perm.nil
  | some (.path, none) =>
    rw [hp] at h
    cases h
  | some (.query, field) =>
    rw [hp] at h hto
    cases h
    refine ⟨⟨[], hto .path, (List.append_nil _).symm⟩, ?_, ?_, ?_⟩
    · rw [hto]; rfl
    · rw [hto]; rfl
    · rw [hto, hto]
      exact List.Perm.of_eq (List.append_nil _).symm
  | some (.body, field) =>
    rw [hp] at h hto
    cases h
    refine ⟨⟨[], hto .path, (List.append_nil _).symm⟩, ?_, ?_, ?_⟩
    · rw [hto]; rfl
    · rw [hto]; rfl
    · rw [hto, hto]
      exact List.Perm.refl _

/-- **All parameters are bound in their places.** -/
theorem bound_bindParameters (b : HandlerBindings) (ps : List Parameter) {b' : HandlerBindings}
    (h : (bindParameters conv controller method b ps).result = .ok b') :
    Bound conv (controller ++ "." ++ method) ps b b'
      (bindParameters conv controller method b ps).notes := by
  induction ps generalizing b with
  | nil =>
    cases h
    exact bound_nil _ _
  | cons p ps ih =>
    rw [bindParameters] at h ⊢
    cases hp : (bindParameter conv controller method b p).result with
    | error e =>
      rw [Attempt.bind_of_error hp] at h
      cases h
    | ok c =>
      rw [Attempt.bind_of_ok hp] at h ⊢
      exact (bound_bindParameter b p hp).append (ih c h)

/-- What a request takes from the bindings of its handler. -/
theorem extractRequest_ok {baseUrl : String} {m : Method} {o : Option Request}
    (hverb : (verbDecorator? conv m).isSome = true)
    (h : (extractRequest conv controller baseUrl m).result = .ok o) :
    ∃ r b, o = some r ∧
      (bindParameters conv controller m.name ⟨[], .none, .none⟩ m.parameters).result = .ok b ∧
      r.params = b.params ∧ r.query = b.query.payload? ∧ r.data = b.data.payload? ∧
      (extractRequest conv controller baseUrl m).notes =
        (bindParameters conv controller m.name ⟨[], .none, .none⟩ m.parameters).notes := by
  obtain ⟨⟨decorator, verb⟩, hv⟩ := Option.isSome_iff_exists.mp hverb
  unfold extractRequest at h ⊢
  rw [verbOf?_eq, hv] at h ⊢
  dsimp only at h ⊢
  cases hfragment : Route.routeFragment decorator.first? (controller ++ "." ++ m.name) false with
  | error e =>
    rw [hfragment, Attempt.bind_of_error rfl] at h
    cases h
  | ok fragment =>
    rw [hfragment, Attempt.bind_of_ok rfl] at h
    rw [Attempt.bind_of_ok rfl]
    cases hb : (bindParameters conv controller m.name ⟨[], .none, .none⟩ m.parameters).result with
    | error e =>
      rw [Attempt.bind_of_error hb] at h
      cases h
    | ok b =>
      rw [Attempt.bind_of_ok hb] at h ⊢
      cases h
      exact ⟨_, b, rfl, rfl, rfl, rfl, rfl, List.append_nil _⟩

end Handler

/-- What a request takes from parameters and notes: the path parameters with their fields, in order;
a query and a body each made up by the parameters of that source; and no notes but those on fields
that a parameter of the whole source discards. -/
structure Placed (conv : Convention) (subject : String) (ps : List Parameter) (r : Request)
    (notes : List Note) : Prop where
  params : boundTo conv .path ps = r.params.map FieldBinding.named
  payloads : ∃ queryNotes dataNotes,
    Supplies subject (boundTo conv .query ps) r.query queryNotes ∧
      Supplies subject (boundTo conv .body ps) r.data dataNotes ∧
      notes.Perm (queryNotes ++ dataNotes)

theorem placed_extractRequest {conv : Convention} {controller baseUrl : String} {m : Method}
    {o : Option Request} (hverb : (verbDecorator? conv m).isSome = true)
    (h : (extractRequest conv controller baseUrl m).result = .ok o) :
    ∃ r, o = some r ∧ Placed conv (controller ++ "." ++ m.name) m.parameters r
      (extractRequest conv controller baseUrl m).notes := by
  obtain ⟨r, b, ho, hb, hparams, hquery, hdata, hnotes⟩ := extractRequest_ok hverb h
  obtain ⟨⟨fs, hfs, hbparams⟩, hbquery, hbdata, hbnotes⟩ := bound_bindParameters _ _ hb
  refine ⟨r, ho, ?_, _, _, ?_, ?_, hnotes ▸ hbnotes⟩
  · rw [hparams, hbparams, List.nil_append, hfs]
  · rw [hquery, hbquery]
    exact Bindings.supplies_addAll _ _
  · rw [hdata, hbdata]
    exact Bindings.supplies_addAll _ _

/-- **A handler's request is made up place by place.** Each payload depends on the parameters of its
own source alone: a handler with the same ones, whatever else it has, gets the same payload. -/
theorem extractRequest_bindings (conv : Convention) (controller baseUrl : String) (m : Method)
    {o : Option Request} (hverb : (verbDecorator? conv m).isSome = true)
    (h : (extractRequest conv controller baseUrl m).result = .ok o) :
    ∃ r, o = some r ∧ Placed conv (controller ++ "." ++ m.name) m.parameters r
        (extractRequest conv controller baseUrl m).notes ∧
      ∀ controller' baseUrl' m' r', (verbDecorator? conv m').isSome = true →
        (extractRequest conv controller' baseUrl' m').result = .ok (some r') →
        (boundTo conv .query m'.parameters = boundTo conv .query m.parameters →
          r'.query = r.query) ∧
        (boundTo conv .body m'.parameters = boundTo conv .body m.parameters →
          r'.data = r.data) := by
  obtain ⟨r, ho, hplaced⟩ := placed_extractRequest hverb h
  refine ⟨r, ho, hplaced, ?_⟩
  obtain ⟨_, _, hquery, hdata, -⟩ := hplaced.payloads
  intro controller' baseUrl' m' r' hverb' h'
  obtain ⟨_, hr', hplaced'⟩ := placed_extractRequest hverb' h'
  cases hr'
  obtain ⟨_, _, hquery', hdata', -⟩ := hplaced'.payloads
  exact ⟨fun hq => (hq ▸ hquery').payload_eq hquery, fun hd => (hd ▸ hdata').payload_eq hdata⟩

/-- A handler whose query and body are both taken over, their parameters interleaved. -/
def interleavedHandler : Method :=
  let parameter (name decorator : String) (arguments : List Argument) : Parameter :=
    ⟨name, false, [⟨"Inject", []⟩, ⟨decorator, arguments⟩], .keyword .string⟩
  ⟨"update", none, [⟨"Put", [.string ":id"]⟩],
    [parameter "title" "Body" [.string "title"], parameter "page" "Query" [.string "page"],
      parameter "id" "Param" [.string "id"], parameter "item" "Body" [],
      parameter "size" "Query" [.string "size"],
      parameter "all" "Query" [.expression "new ValidationPipe()"],
      parameter "extra" "Body" [.string "extra"]], none⟩

theorem extractRequest_bindings_interleaved :
    (verbDecorator? Convention.nest interleavedHandler).isSome = true ∧
      ∃ r, (extractRequest Convention.nest "items" "/items" interleavedHandler).result =
          .ok (some r) ∧
        Placed Convention.nest "items.update" interleavedHandler.parameters r
          (extractRequest Convention.nest "items" "/items" interleavedHandler).notes ∧
        r.params = [⟨"id", "id", .keyword .string, false⟩] ∧
        r.query = some (.whole ⟨"all", .keyword .string, false⟩) ∧
        r.data = some (.whole ⟨"item", .keyword .string, false⟩) ∧
        (extractRequest Convention.nest "items" "/items" interleavedHandler).notes =
          [⟨"items.update", .discardedBinding,
              "whole binding 'item' replaces earlier field bindings", ["discarded: title"]⟩,
            ⟨"items.update", .discardedBinding,
              "whole binding 'all' replaces earlier field bindings", ["discarded: page, size"]⟩] := by
  refine ⟨by decide, ?_⟩
  obtain ⟨r, hr, hplaced, -⟩ :=
    extractRequest_bindings Convention.nest "items" "/items" interleavedHandler (by decide) rfl
  refine ⟨r, congrArg Except.ok hr, hplaced, ?_⟩
  cases hr
  exact ⟨rfl, rfl, rfl, rfl⟩

end ApiSurface
