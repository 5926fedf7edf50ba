import ApiSurface.Proofs.Catalog.Dependence
import ApiSurface.Proofs.Client.Namespaces
import ApiSurface.Proofs.Schema.Plain

/-!
# The declarations of a client

A client has the declarations that its signatures need, each once, and no others.

* `Declaration.mem_links`, `DependsOn`, `dependsOn_iff`: what a declaration depends on;
* `Needed`: the least set of declarations with those in signatures and all that they depend on;
* `needed_iff`, `mem_usedDeclarations`: these are what the signatures reach, and what a client uses;
* `CanImport`: what stands in the imports of a client;
* `emit_eq`, `exists_contents_emit`: the artifacts of a client, and each declaration in them;
* **`emit_declarations`**: the declarations of a client are exactly those needed.
-/

namespace ApiSurface

/-- A declaration depends on its supertypes, on the references in the types of its properties and on
those in the target of an alias. -/
theorem Declaration.mem_links {d : Declaration} {n : String} :
    n ∈ d.links ↔ n ∈ d.supertypes ∨ (∃ p ∈ d.properties, n ∈ p.type.references) ∨
      ∃ target params, d.body = .alias target params ∧ n ∈ target.references := by
  have htarget : n ∈ d.targetReferences ↔
      ∃ target params, d.body = .alias target params ∧ n ∈ target.references := by
    unfold targetReferences
    cases d.body <;> simp
  unfold links
  rw [List.mem_append, List.mem_append, TypeExpr.mem_propertyReferences, htarget, or_assoc]

/-- A declaration depends on a name: as a supertype, or as a reference in the type of a property or
in the target of an alias. -/
inductive Declaration.DependsOn (d : Declaration) (n : String) : Prop
  | supertype {shape : ObjectShape} (hshape : d.HasShape shape) (hn : n ∈ shape.supertypes)
  | property {shape : ObjectShape} {p : Property} (hshape : d.HasShape shape)
    (hp : p ∈ shape.properties) (hn : p.type.Refers n)
  | target {target : TypeExpr} {params : List String} (hbody : d.body = .alias target params)
    (hn : target.Refers n)

theorem Declaration.hasShape_iff {d : Declaration} {shape : ObjectShape} :
    d.HasShape shape ↔ d.shape? = some shape := by
  unfold HasShape shape?
  cases d.body <;> simp

/-- The links of a declaration are what it depends on. -/
theorem Declaration.dependsOn_iff {d : Declaration} {n : String} :
    d.DependsOn n ↔ n ∈ d.links := by
  rw [mem_links]
  constructor
  · rintro (⟨hshape, hn⟩ | ⟨hshape, hp, hn⟩ | ⟨hbody, hn⟩)
    · refine Or.inl ?_
      rw [supertypes, hasShape_iff.mp hshape]
      exact hn
    · refine Or.inr (Or.inl ⟨_, ?_, TypeExpr.refers_iff.mp hn⟩)
      rw [properties, hasShape_iff.mp hshape]
      exact hp
    · exact Or.inr (Or.inr ⟨_, _, hbody, TypeExpr.refers_iff.mp hn⟩)
  · rintro (hn | ⟨p, hp, hn⟩ | ⟨target, params, hbody, hn⟩)
    · unfold supertypes at hn
      cases hshape : d.shape? with
      | none => rw [hshape] at hn; exact absurd hn List.not_mem_nil
      | some shape => rw [hshape] at hn; exact .supertype (hasShape_iff.mpr hshape) hn
    · unfold properties at hp
      cases hshape : d.shape? with
      | none => rw [hshape] at hp; exact absurd hp List.not_mem_nil
      | some shape =>
        rw [hshape] at hp
        exact .property (hasShape_iff.mpr hshape) hp (TypeExpr.refers_iff.mpr hn)
    · exact .target hbody (TypeExpr.refers_iff.mpr hn)

namespace Client

variable {controllers : List Controller} {c : Catalog}

/-! ## What a client needs -/

/-- The names of the signature of a request. -/
def Mentions (r : Request) (n : String) : Prop :=
  (∃ p ∈ r.parameters, n ∈ p.type.references) ∨ n ∈ r.returnType.references

theorem mem_signatureReferences {n : String} :
    n ∈ signatureReferences controllers ↔
      ∃ r ∈ controllers.flatMap (·.requests), Mentions r n := by
  unfold signatureReferences Mentions
  rw [List.mem_flatMap]
  refine exists_congr fun r => and_congr_right fun _ => ?_
  rw [List.mem_append, List.mem_flatMap]

/-- The signature of a request refers to a name: in the type of a parameter or of the answer. -/
def RefersTo (r : Request) (n : String) : Prop :=
  (∃ p ∈ carried r, p.type.Refers n) ∨ r.returnType.Refers n

theorem refersTo_iff {r : Request} {n : String} : RefersTo r n ↔ Mentions r n := by
  unfold RefersTo Mentions
  simp only [TypeExpr.refers_iff, parameters_eq_carried]

/-- The declarations that a client needs: those that a signature refers to, and those that a needed
one depends on. -/
inductive Needed (controllers : List Controller) (c : Catalog) : Declaration → Prop
  | signature {r : Request} {d : Declaration} (hr : r ∈ controllers.flatMap (·.requests))
    (hn : RefersTo r d.name) (hd : d ∈ c.declarations) : Needed controllers c d
  | dependency {e d : Declaration} (h : Needed controllers c e) (hn : e.DependsOn d.name)
    (hd : d ∈ c.declarations) : Needed controllers c d

theorem Needed.mem_declarations {d : Declaration} (h : Needed controllers c d) :
    d ∈ c.declarations := by
  cases h <;> assumption

/-- A client needs the declarations that its signatures reach. -/
theorem needed_iff {d : Declaration} : Needed controllers c d ↔
    d ∈ c.declarations ∧ c.Reached (signatureReferences controllers) d.name := by
  constructor
  · intro h
    refine ⟨h.mem_declarations, ?_⟩
    induction h with
    | signature hr hn hd =>
      exact .root (mem_signatureReferences.mpr ⟨_, hr, refersTo_iff.mp hn⟩)
        (Catalog.contains_iff.mpr ⟨_, hd, rfl⟩)
    | dependency h hn hd ih =>
      exact ih.link h.mem_declarations (Declaration.dependsOn_iff.mp hn)
        (Catalog.contains_iff.mpr ⟨_, hd, rfl⟩)
  · rintro ⟨hd, h⟩
    have hall : ∀ e ∈ c.declarations, e.name = d.name → Needed controllers c e := by
      refine h.mem (S := fun n => ∀ e ∈ c.declarations, e.name = n → Needed controllers c e)
        (fun m hm _ e he hname => ?_) fun b hb hneeded m hm _ e he hname => ?_
      · obtain ⟨r, hr, hm⟩ := mem_signatureReferences.mp hm
        exact .signature hr (refersTo_iff.mpr (hname ▸ hm)) he
      · exact .dependency (hneeded b hb rfl) (Declaration.dependsOn_iff.mpr (hname ▸ hm)) he
    exact hall d hd rfl

/-- A client declares what it needs. -/
theorem mem_usedDeclarations {d : Declaration} :
    d ∈ usedDeclarations controllers c ↔ Needed controllers c d := by
  rw [needed_iff]
  exact Catalog.mem_closure

theorem exists_mem_usedDeclarations {n : String}
    (h : c.Reached (signatureReferences controllers) n) :
    ∃ d ∈ usedDeclarations controllers c, d.name = n := by
  obtain ⟨d, hd, rfl⟩ := Catalog.contains_iff.mp h.contains
  exact ⟨d, Catalog.mem_closure.mpr ⟨hd, h⟩, rfl⟩

/-! ## What a client writes -/

/-- The text of the declarations, one behind the other. -/
theorem typesText_eq (s : ClientSettings) (controllers : List Controller) (c : Catalog) :
    typesText s controllers c = "\n".intercalate ((usedDeclarations controllers c).map fun d =>
      laid s.format.indent 0 (declarationLines s.format.quote d)) := by
  rw [typesText, render_eq_laid, laid_spaced, List.map_map]
  rfl

/-- A client without declarations has no text for them, and no other has none. -/
theorem typesText_isEmpty_iff (s : ClientSettings) (controllers : List Controller) (c : Catalog) :
    (typesText s controllers c).isEmpty ↔ (usedDeclarations controllers c).isEmpty := by
  rw [String.isEmpty_iff, typesText, render_eq_empty_iff, List.isEmpty_iff]
  constructor
  · intro h
    refine List.eq_nil_iff_forall_not_mem.mpr fun d hd => ?_
    obtain ⟨before, after, hlines⟩ :=
      exists_spaced (List.mem_map_of_mem (f := declarationLines s.format.quote) hd)
    have hnil : declarationLines s.format.quote d = [] := by
      rw [h] at hlines
      simp only [List.nil_eq, List.append_eq_nil_iff] at hlines
      exact hlines.1.2
    -- A declaration has at least the line that exports it.
    have hexports := (writes_declarationLines s.format.quote d).exports_eq
    rw [hnil] at hexports
    cases hexports
  · intro h
    rw [h]
    rfl

/-- What a client can import: from what performs its calls, and from the unit of its types some of
the declarations that it uses. -/
inductive CanImport (s : ClientSettings) (ds : List Declaration) : Import → Prop
  | call {primary : Option String} {named : List String}
    (hprimary : ∀ n ∈ primary, n = "request" ∨ n = "axios")
    (hnamed : ∀ n ∈ named, n = "AxiosRequestConfig") :
    CanImport s ds ⟨primary, named, s.requestModule.getD "axios"⟩
  | types {output : String} {named : List String} (houtput : s.typesOutput = some output)
    (hnamed : ∀ n ∈ named, ∃ d ∈ ds, d.name = n) :
    CanImport s ds ⟨none, named, Path.relativeModule s.output output⟩

variable {s : ClientSettings} {ds : List Declaration}

/-- What is left of an import can be imported if the whole can. -/
theorem CanImport.pruned {i j : Import} {body : String} (h : CanImport s ds i)
    (hj : i.pruned body = some j) : CanImport s ds j := by
  unfold Import.pruned at hj
  dsimp only at hj
  split_ifs at hj
  cases hj
  cases h with
  | call hprimary hnamed =>
    exact .call (fun n hn => hprimary n (Option.mem_filter_iff.mp hn).1)
      fun n hn => hnamed n (List.mem_filter.mp hn).1
  | types houtput hnamed =>
    exact .types houtput fun n hn => hnamed n (List.mem_filter.mp hn).1

theorem canImport_callTarget (s : ClientSettings) (ds : List Declaration) :
    CanImport s ds (callTarget s).imported := by
  have hcall : ∀ primary named, (∀ n ∈ primary, n = "request" ∨ n = "axios") →
      (∀ n ∈ named, n = "AxiosRequestConfig") →
      CanImport s ds ⟨primary, named, s.requestModule.getD "axios"⟩ :=
    fun _ _ => CanImport.call
  unfold callTarget
  cases hmodule : s.requestModule with
  | some moduleName =>
    rw [hmodule] at hcall
    exact hcall (some "request") [] (by simp) (by simp)
  | none =>
    rw [hmodule] at hcall
    exact hcall (some "axios") ["AxiosRequestConfig"] (by simp) (by simp)

theorem canImport_typesImport {output : String} (houtput : s.typesOutput = some output) :
    CanImport s (usedDeclarations controllers c) (typesImport s controllers c output) :=
  .types houtput fun _ hn => List.mem_map.mp (List.mem_filter.mp hn).1

/-- A unit has the header, imports, and its body. -/
theorem exists_unitText {is : List Import} (his : ∀ i ∈ is, CanImport s ds i) (body : String) :
    ∃ js : List Import, (∀ j ∈ js, CanImport s ds j) ∧
      unitText s is body = header s ++ importBlock s.format.quote js ++ body := by
  refine ⟨is.filterMap fun i => i.pruned body, fun j hj => ?_, ?_⟩
  · obtain ⟨i, hi, hj⟩ := List.mem_filterMap.mp hj
    exact (his i hi).pruned hj
  · rw [unitText, importText_eq]

/-- **The artifacts of a client.** The unit of functions has the header, imports and the functions.
The declarations stand behind the functions, or behind the header in a unit of their own. -/
theorem emit_eq (s : ClientSettings) (controllers : List Controller) (c : Catalog) :
    let ds := usedDeclarations controllers c
    let types := "\n".intercalate (ds.map fun d =>
      laid s.format.indent 0 (declarationLines s.format.quote d))
    ∃ is : List Import, (∀ i ∈ is, CanImport s ds i) ∧
      let front := header s ++ importBlock s.format.quote is ++ functionText s controllers
      (emit s controllers c).value = match s.typesOutput with
        | some output => [⟨s.output, front⟩,
          ⟨output, header s ++ if ds.isEmpty then "export \x7b\x7d;\n" else types⟩]
        | none => [⟨s.output, front ++ if ds.isEmpty then "" else "\n" ++ types⟩] := by
  intro ds types
  have htypes : typesText s controllers c = types := typesText_eq s controllers c
  have hempty : (typesText s controllers c).isEmpty = ds.isEmpty :=
    Bool.eq_iff_iff.mpr (typesText_isEmpty_iff s controllers c)
  have hcall := canImport_callTarget s ds
  unfold emit artifacts
  dsimp only
  rw [hempty, htypes]
  cases houtput : s.typesOutput with
  | some output =>
    obtain ⟨is, his, hunit⟩ := exists_unitText
      (List.forall_mem_cons.mpr ⟨hcall, List.forall_mem_singleton.mpr
        (canImport_typesImport houtput)⟩) (functionText s controllers)
    exact ⟨is, his, by rw [← hunit]⟩
  | none =>
    obtain ⟨is, his, hunit⟩ := exists_unitText (List.forall_mem_singleton.mpr hcall)
      (if ds.isEmpty then functionText s controllers
        else functionText s controllers ++ "\n" ++ types)
    refine ⟨is, his, ?_⟩
    rw [hunit]
    split_ifs
    · rw [String.append_empty]
    · simp only [String.append_assoc]

/-- The text of each declaration of a client stands in an artifact. -/
theorem exists_contents_emit (s : ClientSettings) {d : Declaration}
    (hd : d ∈ usedDeclarations controllers c) :
    ∃ a ∈ (emit s controllers c).value, ∃ front rest, a.contents =
      front ++ render s.format.indent (declarationLines s.format.quote d) ++ rest := by
  obtain ⟨is, -, hemit⟩ := emit_eq s controllers c
  obtain ⟨before, after, htypes⟩ := @exists_intercalate _ "\n" _ (List.mem_map_of_mem
    (f := fun d => laid s.format.indent 0 (declarationLines s.format.quote d)) hd)
  have hsome : ¬ (usedDeclarations controllers c).isEmpty := by
    rw [List.isEmpty_iff]
    exact List.ne_nil_of_mem hd
  rw [hemit, htypes, render_eq_laid]
  cases s.typesOutput with
  | some output =>
    refine ⟨_, List.mem_cons_of_mem _ List.mem_cons_self, header s ++ before, after, ?_⟩
    dsimp only
    rw [if_neg hsome]
    simp only [String.append_assoc]
  | none =>
    refine ⟨_, List.mem_cons_self, header s ++ importBlock s.format.quote is ++
      functionText s controllers ++ "\n" ++ before, after, ?_⟩
    dsimp only
    rw [if_neg hsome]
    simp only [String.append_assoc]

/-- **The declarations of a client** are, in the order of the catalog and each once, exactly those
that it needs; the search for them ends. Its artifacts have them behind the functions or in a unit
of their own, each with one line that exports it, and nothing else but the header, imports and the
functions of the requests. So whatever declaration a signature, a supertype, a property or the
target of an alias refers to, the client has it. -/
theorem emit_declarations (s : ClientSettings) (controllers : List Controller) (c : Catalog) :
    let ds := usedDeclarations controllers c
    (WellFounded fun t u : Search => u.next? c = some t) ∧
      (∃ (written : Declaration → List Line) (functions : String) (is : List Import),
        (∀ d, WritesDeclaration s.format.quote d (written d) ∧
          exports (written d) = [declarationHead d]) ∧
        WritesNamespaces s controllers (namespaceNames controllers) functions ∧
        (∀ i ∈ is, CanImport s ds i) ∧
        let front := header s ++ importBlock s.format.quote is ++ functions
        let types := "\n".intercalate (ds.map fun d => laid s.format.indent 0 (written d))
        (emit s controllers c).value = match s.typesOutput with
          | some output => [⟨s.output, front⟩,
            ⟨output, header s ++ if ds.isEmpty then "export \x7b\x7d;\n" else types⟩]
          | none => [⟨s.output, front ++ if ds.isEmpty then "" else "\n" ++ types⟩]) ∧
      ds.Sublist c.declarations ∧ (ds.map (·.name)).Nodup ∧
      (∀ d, d ∈ ds ↔ Needed controllers c d) ∧
      ∀ d ∈ c.declarations, ((∃ r ∈ controllers.flatMap (·.requests), RefersTo r d.name) ∨
        ∃ e ∈ ds, e.DependsOn d.name) → d ∈ ds := by
  intro ds
  have hsub : ds.Sublist c.declarations := Catalog.closure_sublist
  obtain ⟨is, his, hemit⟩ := emit_eq s controllers c
  refine ⟨Search.wellFounded_next? c, ?_, hsub, ?_, fun d => mem_usedDeclarations, ?_⟩
  · refine ⟨declarationLines s.format.quote, _, is, fun d => ?_,
      writes_functionText s controllers, his, hemit⟩
    have h := writes_declarationLines s.format.quote d
    exact ⟨h, h.exports_eq⟩
  · refine List.Nodup.sublist (hsub.map _) ?_
    rw [← Catalog.names_eq]
    exact c.distinct
  · rintro d hd (⟨r, hr, hn⟩ | ⟨e, he, hn⟩)
    · exact mem_usedDeclarations.mpr (.signature hr hn hd)
    · exact mem_usedDeclarations.mpr (.dependency (mem_usedDeclarations.mp he) hn hd)

end Client

end ApiSurface
