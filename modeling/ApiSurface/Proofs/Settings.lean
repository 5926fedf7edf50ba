import ApiSurface.Proofs.Json.Parts
import ApiSurface.Proofs.Toml.Document
import ApiSurface.Settings.Load

/-!
# Settings are read back from their document

* `Settings.tidy_toEntries`: settings as entries are a tidy document;
* `Layer.overlay_toEntries`: over no other layer they stay as they are;
* `EmitterSettings.ofValue?_toValue`, `TaskSettings.ofValue?_toValue`: what is left out is read as
  not set;
* **`Settings.ofToml_toToml`**: the whole way.
-/

namespace ApiSurface

open ApiSurface.Json
open ApiSurface.Toml (Inline Keys Lines Tidy)

/-! ## Settings as a tidy document -/

theorem lines_entryIf (k : String) (value : Option String) : Lines [k] (entryIf k value) := by
  cases value with
  | none => exact ⟨List.nil_sublist _, nofun⟩
  | some s => exact Lines.nil.cons (.scalar (.text s))

theorem inline_texts (l : List String) : Inline (.texts l) := by
  refine .list fun v hv => ?_
  obtain ⟨s, -, rfl⟩ := List.mem_map.mp hv
  exact .text s

/-- The lines of a client: all its entries but the format. -/
theorem ClientSettings.lines (s : ClientSettings) :
    Lines ["kind", "output", "types_output", "request_module", "overrides_param", "header"]
      (("kind", .text "client") :: ("output", .text s.output) ::
        (entryIf "types_output" s.typesOutput ++ entryIf "request_module" s.requestModule ++
          entryIf "overrides_param" s.overridesParam ++ entryIf "header" s.header)) :=
  (((((lines_entryIf _ _).append (lines_entryIf _ _)).append (lines_entryIf _ _)).append
    (lines_entryIf _ _)).cons (.scalar (.text _))).cons (.scalar (.text _))

theorem ClientSettings.keys : Keys ["kind", "output", "types_output", "request_module",
    "overrides_param", "header", "format"] := by decide

/-- The lines of a document. -/
theorem DocumentSettings.lines (s : DocumentSettings) :
    Lines ["kind", "output", "title", "version", "description", "stdout"]
      (Layer.entriesOf (EmitterSettings.document s).toValue) :=
  ((((((lines_entryIf _ _).append (Lines.nil.cons (.scalar (.bool _)))).cons
    (.scalar (.text _))).cons (.scalar (.text _))).cons (.scalar (.text _))).cons
      (.scalar (.text _)))

theorem EmitterSettings.toValue_eq (s : EmitterSettings) :
    s.toValue = .table (Layer.entriesOf s.toValue) := by
  cases s <;> rfl

theorem EmitterSettings.tidy_toValue {s : EmitterSettings}
    (h : ∀ n ∈ s.indent?, n ≤ Value.maxInteger) : Tidy 2 (Layer.entriesOf s.toValue) := by
  cases s with
  | client s =>
    have hformat : Lines ["indent", "quote"] (Layer.entriesOf s.format.toValue) :=
      (Lines.nil.cons (.scalar (.text _))).cons (.scalar (.natural (h _ rfl)))
    refine s.lines.tidy_append (List.cons_ne_nil _ _) [("format", s.format.toValue)]
      ClientSettings.keys ?_
    intro e he
    obtain rfl := List.mem_singleton.mp he
    exact Or.inl ⟨_, rfl, hformat.tidy (List.cons_ne_nil _ _) (by decide)⟩
  | document s => exact s.lines.tidy (List.cons_ne_nil _ _) (by decide)

theorem TaskSettings.tidy_toValue {t : TaskSettings}
    (h : ∀ n ∈ t.emitter.indent?, n ≤ Value.maxInteger) :
    Tidy 3 (Layer.entriesOf t.toValue) := by
  have hlines := (((Lines.nil.cons (k := "types") (inline_texts t.types)).cons (k := "controllers")
    (inline_texts t.controllers)).cons (k := "framework") (.scalar (.text t.framework.text))).cons
      (k := "name") (.scalar (.text t.name))
  have hkeys : Keys ["name", "framework", "controllers", "types", "emitter"] := by decide
  refine hlines.tidy_append (List.cons_ne_nil _ _) [("emitter", t.emitter.toValue)] hkeys ?_
  intro e he
  obtain rfl := List.mem_singleton.mp he
  exact Or.inl ⟨_, t.emitter.toValue_eq, EmitterSettings.tidy_toValue h⟩

theorem Settings.tidy_toEntries {s : Settings} (h : s.fits = true) : Tidy 4 s.toEntries := by
  have hroot := Lines.nil.cons (k := "root") (.scalar (.text s.root))
  have hkeys : Keys ["root", "tasks"] := by decide
  have htasks : ∀ t ∈ s.tasks, Tidy 3 (Layer.entriesOf t.toValue) := fun t ht => by
    have hfit := List.all_eq_true.mp h t ht
    exact TaskSettings.tidy_toValue (by simpa [Option.all_eq_true] using hfit)
  rw [toEntries]
  cases hs : s.tasks with
  | nil =>
    have hnone : Inline (.list []) := .list nofun
    have hlines := (Lines.nil.cons (k := "tasks") hnone).cons (k := "root") (.scalar (.text s.root))
    exact hlines.tidy (List.cons_ne_nil _ _) hkeys
  | cons t ts =>
    rw [hs] at htasks
    refine hroot.tidy_append (List.cons_ne_nil _ _) [("tasks", _)] hkeys ?_
    intro e he
    obtain rfl := List.mem_singleton.mp he
    refine Or.inr ⟨Layer.entriesOf t.toValue, ts.map fun t => Layer.entriesOf t.toValue, ?_, ?_⟩
    · rw [List.map_cons, List.map_cons, List.map_map]
      rfl
    · simpa using htasks

/-! ## One layer -/

theorem Layer.overlay_toEntries (s : Settings) : overlay [] s.toEntries = .ok s.toEntries := by
  have hlower : lower "root" = "root" ∧ lower "tasks" = "tasks" := by decide +kernel
  have hroot : stepsOf "root" = [.member "root"] := by decide +kernel
  have htasks : stepsOf "tasks" = [.member "tasks"] := by decide +kernel
  have hfirst : overlayEntry (.table []) ("root", .text s.root) =
      .ok (.table [("root", .text s.root)]) := by
    simp [overlayEntry, hroot, place?, put, joinAll, hlower, entriesOf, join, store]
  have hsecond : overlayEntry (.table [("root", .text s.root)])
      ("tasks", .list (s.tasks.map TaskSettings.toValue)) = .ok (.table s.toEntries) := by
    simp [overlayEntry, htasks, place?, put, joinAll, hlower, entriesOf, join, store,
      Settings.toEntries]
  have hrun : s.toEntries.foldlM overlayEntry (.table []) = .ok (.table s.toEntries) := by
    have hstart : s.toEntries.foldlM overlayEntry (.table []) =
        (overlayEntry (.table []) ("root", .text s.root) >>= fun v =>
          overlayEntry v ("tasks", .list (s.tasks.map TaskSettings.toValue)) >>= pure) := rfl
    rw [hstart, hfirst]
    exact congrArg (· >>= pure) hsecond
  rw [overlay, hrun]
  rfl

/-! ## Decoding -/

section Decoding

variable {name : String} {value : Option String}

theorem entriesToJson_eq (es : List (String × Value)) :
    Value.entriesToJson es = es.map fun e => (e.1, e.2.toJson) := by
  induction es with
  | nil => rfl
  | cons e es ih => rw [Value.entriesToJson, ih, List.map_cons]

/-- An entry that is left out reads as one that is not set. -/
theorem lookup_entryIf (k : String) :
    ((entryIf name value).map fun e => (e.1, e.2.toJson)).lookup k =
      if k = name then value.map Json.text else none := by
  cases value with
  | none => simp [entryIf]
  | some s =>
    by_cases h : k = name
    · simp [entryIf, Value.toJson, h]
    · simp [entryIf, List.lookup_cons, h, beq_false_of_ne h]

theorem nullable_map_text (value : Option String) :
    nullable text? (value.map Json.text) = some value := by
  cases value <;> rfl

mutual

theorem Value.fit_toJson : ∀ v : Value, v.toJson.fit = true
  | nothing => rfl
  | bool _ => rfl
  | integer n => by cases n <;> rfl
  | real r => by cases r <;> rfl
  | text _ => rfl
  | list vs => fitItems_itemsToJson vs
  | table es => fitMembers_entriesToJson es

theorem Value.fitItems_itemsToJson : ∀ vs : List Value, fitItems (itemsToJson vs) = true
  | [] => rfl
  | v :: vs => by
    rw [itemsToJson, fitItems, v.fit_toJson, fitItems_itemsToJson vs]
    rfl

theorem Value.fitMembers_entriesToJson :
    ∀ es : List (String × Value), fitMembers (entriesToJson es) = true
  | [] => rfl
  | (k, v) :: es => by
    rw [entriesToJson, fitMembers, v.fit_toJson, fitMembers_entriesToJson es]
    rfl

end

end Decoding

theorem Format.ofJson?_toValue (f : Format) : Format.ofJson? f.toValue.toJson = some f := by
  have hquote : QuoteStyle.ofJson? (.text f.quote.text) = some f.quote := by
    cases f.quote <;> rfl
  have hindent : Value.integerJson f.indent = .number (.natural f.indent) := rfl
  simp [ofJson?, toValue, Value.toJson, Value.entriesToJson, slots, List.lookup_cons, hquote, hindent,
    natural?]

/-- The fields of a record by name, where the entries of a table have different keys. -/
theorem slots_entriesToJson {es : List (String × Value)} (hkeys : (es.map Prod.fst).Nodup)
    (names : List String) : slots names (.object (Value.entriesToJson es)) =
      some (names.map fun n => (es.map fun e => (e.1, e.2.toJson)).lookup n) := by
  rw [entriesToJson_eq, slots, if_pos (once_of_nodup (by rwa [List.map_map]) names)]

theorem EmitterSettings.ofValue?_table {es : List (String × Value)} {kind : String}
    (hkeys : ((("kind", .text kind) :: es).map Prod.fst).Nodup) :
    ofValue? (.table (("kind", .text kind) :: es)) =
      emitterOfKind? kind (.object (Value.entriesToJson (("kind", .text kind) :: es))) := by
  have hfit : (Json.object (Value.entriesToJson (("kind", .text kind) :: es))).fit = true :=
    Value.fit_toJson (.table _)
  have honce : once ["kind"] (Value.entriesToJson (("kind", .text kind) :: es)) = true := by
    rw [entriesToJson_eq]
    exact once_of_nodup (by rwa [List.map_map]) _
  rw [ofValue?, Value.toJson, ofJson?, if_pos hfit]
  exact if_pos honce

theorem EmitterSettings.ofValue?_toValue (s : EmitterSettings) : ofValue? s.toValue = some s := by
  cases s with
  | client s =>
    have hkeys : ((Layer.entriesOf (client s).toValue).map Prod.fst).Nodup :=
      (s.lines.keys_sublist [("format", s.format.toValue)]).nodup ClientSettings.keys.1
    have hread : ClientSettings.ofJson? (.object (Value.entriesToJson (Layer.entriesOf
        (client s).toValue))) = some s := by
      rw [ClientSettings.ofJson?, slots_entriesToJson hkeys]
      simp [Layer.entriesOf, toValue, List.lookup_append, List.lookup_cons, lookup_entryIf,
        Value.toJson, nullable_map_text, Format.ofJson?_toValue]
    rw [toValue_eq]
    exact (ofValue?_table hkeys).trans (congrArg (Option.map client) hread)
  | document s =>
    have hkeys : ((Layer.entriesOf (document s).toValue).map Prod.fst).Nodup :=
      s.lines.keys.nodup (by decide)
    have hread : DocumentSettings.ofJson? (.object (Value.entriesToJson (Layer.entriesOf
        (document s).toValue))) = some s := by
      rw [DocumentSettings.ofJson?, slots_entriesToJson hkeys]
      simp [Layer.entriesOf, toValue, List.lookup_append, List.lookup_cons, lookup_entryIf,
        Value.toJson, nullable_map_text]
    rw [toValue_eq]
    exact (ofValue?_table hkeys).trans (congrArg (Option.map document) hread)

theorem words?_texts (l : List String) : (Value.texts l).words? = some l := by
  rw [Value.texts, Value.words?, mapM_map_eq_some_iff]
  exact fun _ _ => rfl

theorem TaskSettings.ofValue?_toValue (t : TaskSettings) : ofValue? t.toValue = some t := by
  have hframework : Framework.ofValue? (.text t.framework.text) = some t.framework := by
    cases t.framework
    decide +kernel
  simp [ofValue?, toValue, Value.slots, List.lookup_cons, Value.word?, hframework, words?_texts,
    EmitterSettings.ofValue?_toValue]

theorem Settings.ofEntries?_toEntries (s : Settings) : ofEntries? s.toEntries = some s := by
  have htasks : tasksOfValue? (.list (s.tasks.map TaskSettings.toValue)) = some s.tasks := by
    rw [tasksOfValue?, mapM_map_eq_some_iff]
    exact fun t _ => t.ofValue?_toValue
  simp [ofEntries?, toEntries, List.lookup_cons, Value.word?, htasks]

/-! ## The whole way -/

theorem Settings.fits_iff {s : Settings} :
    s.fits = true ↔ ∀ t ∈ s.tasks, ∀ n ∈ t.emitter.indent?, n ≤ Value.maxInteger := by
  simp [fits, List.all_eq_true, Option.all_eq_true]

/-- **Settings that are written as a document are read from it as they were**, whatever is set in
them and whatever is not. Only an indentation that no document can hold keeps them from being
written. -/
theorem Settings.ofToml_toToml (s : Settings) :
    (∀ text, s.toToml = .ok text → ofToml text = .ok s) ∧
      ((∃ text, s.toToml = .ok text) ↔
        ∀ t ∈ s.tasks, ∀ n ∈ t.emitter.indent?, n ≤ Value.maxInteger) := by
  rw [← fits_iff]
  by_cases hfits : s.fits = true
  · have hread : Toml.read? (Toml.write s.toEntries) = some s.toEntries :=
      Toml.read?_write (tidy_toEntries hfits) (by decide)
    have htext : s.toToml = .ok (Toml.write s.toEntries) := if_pos hfits
    have hback : ofToml (Toml.write s.toEntries) = .ok s := by
      rw [ofToml, hread]
      show Layer.overlay [] s.toEntries >>= ofEntries = .ok s
      rw [Layer.overlay_toEntries]
      show ofEntries s.toEntries = .ok s
      rw [ofEntries, ofEntries?_toEntries]
    refine ⟨fun _ h => ?_, fun _ => hfits, fun _ => ⟨_, htext⟩⟩
    cases htext.symm.trans h
    exact hback
  · have htext : s.toToml = .error (.toml "an integer is out of range") := if_neg hfits
    refine ⟨fun _ h => ?_, fun ⟨_, h⟩ => ?_, fun h => absurd h hfits⟩
    · cases htext.symm.trans h
    · cases htext.symm.trans h

/-- A client with two texts that are set, one of them over two lines, and a document. -/
def Settings.sample : Settings :=
  ⟨"src", [⟨"web", .nest, ["a.json", "b.json"], [],
      .client ⟨"api.ts", none, some "./http", none, some "One\n\"two\"", ⟨4, .single⟩⟩⟩,
    ⟨"docs", .nest, [], ["t.json"], .document ⟨"api.json", "API", "1", none, true⟩⟩]⟩

/-- The sample as a document. -/
def Settings.sampleText : String :=
  "root = \"src\"\n\n[[tasks]]\nname = \"web\"\nframework = \"nest\"\n" ++
    "controllers = [\n    \"a.json\",\n    \"b.json\",\n]\ntypes = []\n\n" ++
    "[tasks.emitter]\nkind = \"client\"\noutput = \"api.ts\"\nrequest_module = \"./http\"\n" ++
    "header = \"\"\"\nOne\n\"two\"\"\"\"\n\n[tasks.emitter.format]\nindent = 4\n" ++
    "quote = \"single\"\n\n[[tasks]]\nname = \"docs\"\nframework = \"nest\"\ncontrollers = []\n" ++
    "types = [\"t.json\"]\n\n[tasks.emitter]\nkind = \"openapi\"\noutput = \"api.json\"\n" ++
    "title = \"API\"\nversion = \"1\"\nstdout = true\n"

theorem Settings.ofToml_sampleText :
    sample.toToml = .ok sampleText ∧ ofToml sampleText = .ok sample := by
  have hfits : sample.fits = true := by decide
  have hwrite : Toml.write sample.toEntries = sampleText := by decide +kernel
  have htext : sample.toToml = .ok sampleText := (if_pos hfits).trans (congrArg Except.ok hwrite)
  exact ⟨htext, (ofToml_toToml sample).1 sampleText htext⟩

end ApiSurface
