import ApiSurface.Proofs.Catalog.Properties
import ApiSurface.Proofs.Client.Declarations
import ApiSurface.Proofs.Client.Layout
import ApiSurface.Proofs.Document.Expansion
import ApiSurface.Proofs.Document.Order

/-!
# What a document refers to, a client declares

The components that the operations of a document refer to, at once or through other components, are
declared by the client of the same surface: what resolving a type refers to is among the references
of the type, and what a declaration refers to is among its links.

* `Document.Reaches`: the components that a document leads to from its operations;
* `mem_links_of_mem_references`: references of a component are links of its declaration;
* `reached_of_expands`: so are those of the properties that a query type stands for;
* `reached_of_operation`: operations refer to what the signatures of requests reach;
* **`exists_declaration_of_reaches`**: what a document leads to, the client declares.
-/

namespace ApiSurface

/-- The components that the operations of a document lead to, at once or through components. -/
inductive Document.Reaches (d : Document) : String → Prop
  | operation {o : Document.Operation} {n : String} (ho : o ∈ d.operations)
    (hn : n ∈ o.references) : Reaches d n
  | component {m n : String} {s : Schema} (h : Reaches d m) (hs : Dict.get? d.schemas m = some s)
    (hn : n ∈ s.references) : Reaches d n

variable {c : Catalog}

/-! ## Types and declarations -/

/-- The schema of a type refers only to declared names that the type mentions. -/
theorem mem_references_of_resolve {subject : String} {t : TypeExpr} {s : Schema}
    (hs : s ∈ (resolve (some c) subject t).value) {n : String} (hn : n ∈ s.references) :
    n ∈ t.references ∧ c.contains n = true :=
  (plain_resolve (some c) subject t s hs).references n hn

theorem mem_references_of_getD {subject : String} {t : TypeExpr} {n : String}
    (hn : n ∈ ((resolve (some c) subject t).value.getD .unknown).references) :
    n ∈ t.references ∧ c.contains n = true := by
  cases hs : (resolve (some c) subject t).value with
  | none =>
    rw [hs] at hn
    exact absurd hn List.not_mem_nil
  | some s =>
    rw [hs] at hn
    exact mem_references_of_resolve hs hn

theorem mem_references_of_synthesizeObject {d : Declaration} {n : String}
    (hn : n ∈ (synthesizeObject (some c) d).value.references) :
    n ∈ d.supertypes ∨ ∃ p ∈ d.properties, n ∈ p.type.references := by
  have hobject : n ∈ (Schema.object d.docs (synthesizeProperties (some c) d.name
      (describedProperties (some c) d)).value).references →
      ∃ p ∈ d.properties, n ∈ p.type.references := by
    intro hn
    obtain ⟨q, hq, hn⟩ := Schema.mem_propertyReferences.mp hn
    rw [value_synthesizeProperties, List.mem_filterMap] at hq
    obtain ⟨p, hp, hq⟩ := hq
    obtain ⟨s, hs, rfl⟩ := Option.map_eq_some_iff.mp hq
    exact ⟨p, (List.mem_filter.mp hp).1, (mem_references_of_resolve hs hn).1⟩
  unfold synthesizeObject at hn
  simp only [Noted.value_bind] at hn
  split_ifs at hn
  · exact Or.inr (hobject hn)
  · obtain ⟨s, hs, hn⟩ := Schema.mem_referencesOf.mp hn
    rcases List.mem_append.mp hs with hs | hs
    · obtain ⟨m, hm, rfl⟩ := List.mem_map.mp hs
      rw [List.mem_singleton.mp hn]
      exact Or.inl (List.mem_filter.mp hm).1
    · rw [List.mem_singleton.mp hs] at hn
      exact Or.inr (hobject hn)

theorem references_synthesizeEnum (name : String) (ms : List EnumMember) :
    (synthesizeEnum name ms).value.references = [] := by
  cases ms with
  | nil => rfl
  | cons first rest =>
    unfold synthesizeEnum
    dsimp only
    split_ifs <;> rfl

/-- **The schema of a declaration refers only to what the declaration links to.** -/
theorem mem_links_of_mem_references {d : Declaration} {n : String}
    (hn : n ∈ (synthesize (some c) d).value.references) : n ∈ d.links := by
  rw [Declaration.mem_links]
  unfold synthesize at hn
  split at hn
  · exact (mem_references_of_synthesizeObject hn).imp_right Or.inl
  · exact (mem_references_of_synthesizeObject hn).imp_right Or.inl
  · rw [references_synthesizeEnum] at hn
    exact absurd hn List.not_mem_nil
  · next target params hbody =>
    exact Or.inr (Or.inr ⟨target, params, hbody, (mem_references_of_getD hn).1⟩)

/-! ## Query types -/

open Catalog

theorem Catalog.Reached.trans {roots roots' : List String}
    (hroots : ∀ n ∈ roots, c.contains n = true → c.Reached roots' n) {n : String}
    (h : c.Reached roots n) : c.Reached roots' n := by
  obtain ⟨r, hr, hcr, hpath⟩ := h
  obtain ⟨q, hq, hcq, hqr⟩ := hroots r hr hcr
  exact ⟨q, hq, hcq, hqr.trans hpath⟩

/-- What is above a declaration is reached from its name. -/
theorem Catalog.Above.reached {m n : String} (h : c.Above m n) : c.Reached [m] n := by
  have hlink : ∀ a b, c.Link Declaration.supertypes a b → c.Link Declaration.links a b := by
    rintro a b ⟨d, hd, hb, hc⟩
    exact ⟨d, hd, Declaration.mem_links.mpr (Or.inl hb), hc⟩
  exact ⟨m, List.mem_singleton_self m, h.contains_left,
    (Relation.TransGen.mono hlink _ _ h).to_reflTransGen⟩

/-- The flattened properties of a declaration mention only what its name reaches. -/
theorem reached_of_flattenedProperties {name n : String} {p : Property}
    (hp : p ∈ c.flattenedProperties name) (hn : n ∈ p.type.references)
    (hc : c.contains n = true) : c.Reached [name] n := by
  unfold flattenedProperties at hp
  cases hd : c.get? name with
  | none =>
    rw [hd] at hp
    exact absurd hp List.not_mem_nil
  | some d =>
    rw [hd] at hp
    obtain ⟨hdecl, rfl⟩ := get?_eq_some_iff.mp hd
    obtain ⟨a, ha, hp⟩ := List.mem_flatMap.mp (mem_of_mem_firstOfName hp)
    have hlink : n ∈ a.links := Declaration.mem_links.mpr (Or.inr (Or.inl ⟨p, hp, hn⟩))
    rcases List.mem_cons.mp ha with rfl | ha
    · exact (Reached.root (List.mem_singleton_self _)
        (contains_iff.mpr ⟨a, hdecl, rfl⟩)).link hdecl hlink hc
    · obtain ⟨hadecl, -, habove⟩ := mem_ancestors.mp ha
      exact habove.reached.link hadecl hlink hc

/-- **The properties that a query type stands for mention only what the type reaches.** -/
theorem reached_of_expands {t : TypeExpr} {ps : List Property} (h : Document.Expands c t ps)
    {p : Property} (hp : p ∈ ps) {n : String} (hn : n ∈ p.type.references)
    (hc : c.contains n = true) : c.Reached t.references n := by
  induction h generalizing p with
  | object ps => exact .root (TypeExpr.mem_propertyReferences.mpr ⟨p, hp, hn⟩) hc
  | declared _ _ => exact reached_of_flattenedProperties hp hn hc
  | aliased hd hbody _ ih =>
    obtain ⟨hdecl, rfl⟩ := get?_eq_some_iff.mp hd
    have hself : c.Reached [_] _ := .root (List.mem_singleton_self _) (contains_iff.mpr ⟨_, hdecl, rfl⟩)
    exact (ih hp hn).trans fun k hk hck => hself.link hdecl
      (Declaration.mem_links.mpr (Or.inr (Or.inr ⟨_, _, hbody, hk⟩))) hck
  | intersection f _ ih =>
    rw [← Document.firstOfName_eq] at hp
    obtain ⟨m, hm, hp⟩ := List.mem_flatMap.mp (mem_of_mem_firstOfName hp)
    exact (ih m hm hp hn).trans fun k hk hck =>
      .root (TypeExpr.mem_referencesOf.mpr ⟨m, hm, hk⟩) hck

/-! ## Operations -/

namespace Document

/-- The names that parameters mention. -/
def mentioned (ps : List BoundParameter) : List String := ps.flatMap (·.type.references)

theorem mem_mentioned_fields {bs : List FieldBinding} {b : FieldBinding} (hb : b ∈ bs) {n : String}
    (hn : n ∈ b.parameter.type.references) : n ∈ mentioned (bs.map (·.parameter)) :=
  List.mem_flatMap.mpr ⟨b.parameter, List.mem_map_of_mem hb, hn⟩

variable {subject : String} {n : String}

theorem reached_of_fieldParameters {location : BindingSource} {bs : List FieldBinding}
    {p : Parameter} (hp : p ∈ (fieldParameters c subject location bs).value)
    (hn : n ∈ p.schema.references) : c.Reached (mentioned (bs.map (·.parameter))) n := by
  rw [value_fieldParameters, List.mem_map] at hp
  obtain ⟨b, hb, rfl⟩ := hp
  obtain ⟨hn, hc⟩ := mem_references_of_getD hn
  exact .root (mem_mentioned_fields hb hn) hc

theorem reached_of_queryParameters {payload : Option Payload} {p : Parameter}
    (hp : p ∈ (queryParameters c subject payload).value) (hn : n ∈ p.schema.references) :
    c.Reached (mentioned (payloadParameters payload)) n := by
  match payload with
  | none => exact absurd hp List.not_mem_nil
  | some (.fields bs) => exact reached_of_fieldParameters hp hn
  | some (.whole q) =>
    have hmentioned : mentioned (payloadParameters (some (.whole q))) = q.type.references :=
      List.append_nil _
    rw [hmentioned]
    change p ∈ (wholeQueryParameters c subject q).value at hp
    rw [value_wholeQueryParameters] at hp
    cases hq : expand c (maxNesting + 1) q.type with
    | none =>
      rw [hq] at hp
      rw [List.mem_singleton.mp hp] at hn
      obtain ⟨hn, hc⟩ := mem_references_of_getD hn
      exact .root hn hc
    | some ps =>
      rw [hq] at hp
      change p ∈ (propertyParameters c subject ps).value at hp
      rw [value_propertyParameters, List.mem_filterMap] at hp
      obtain ⟨r, hr, hp⟩ := hp
      obtain ⟨s, hs, rfl⟩ := Option.map_eq_some_iff.mp hp
      obtain ⟨hn, hc⟩ := mem_references_of_resolve hs hn
      exact reached_of_expands (expandsWithin_of_expand hq).expands hr hn hc

theorem reached_of_requestBody {payload : Option Payload} {b : RequestBody}
    (hb : b ∈ (requestBody c subject payload).value) (hn : n ∈ b.schema.references) :
    c.Reached (mentioned (payloadParameters payload)) n := by
  match payload with
  | none => cases hb
  | some (.whole p) =>
    cases hb
    obtain ⟨hn, hc⟩ := mem_references_of_getD hn
    exact .root (List.mem_append_left _ hn) hc
  | some (.fields bs) =>
    cases hb
    obtain ⟨q, hq, hn⟩ := Schema.mem_propertyReferences.mp hn
    rw [value_bodyProperties, List.mem_map] at hq
    obtain ⟨f, hf, rfl⟩ := hq
    obtain ⟨hn, hc⟩ := mem_references_of_getD hn
    exact .root (mem_mentioned_fields hf hn) hc

/-- **The operation of a request refers only to what the signature of the request reaches.** -/
theorem reached_of_operation {controller : String} {r : Request}
    (hn : n ∈ (operation c controller r).value.references) :
    c.Reached (mentioned r.parameters ++ r.returnType.references) n := by
  obtain ⟨s, hs, hn⟩ := List.mem_flatMap.mp hn
  rw [schemas_operation, List.mem_append, List.mem_append] at hs
  have hparameters : mentioned r.parameters =
      mentioned (r.params.map (·.parameter)) ++ mentioned (payloadParameters r.query) ++
        mentioned (payloadParameters r.data) := by
    unfold mentioned Request.parameters
    rw [List.flatMap_append, List.flatMap_append]
  rw [hparameters]
  have hmono : ∀ {roots}, (∀ m ∈ roots, m ∈ mentioned (r.params.map (·.parameter)) ++
      mentioned (payloadParameters r.query) ++ mentioned (payloadParameters r.data) ++
        r.returnType.references) → c.Reached roots n → c.Reached _ n :=
    fun hroots h => h.trans fun m hm hc => .root (hroots m hm) hc
  rcases hs with (hs | hs) | hs
  · obtain ⟨p, hp, rfl⟩ := List.mem_map.mp hs
    rcases List.mem_append.mp hp with hp | hp
    · refine hmono (fun m hm => ?_) (reached_of_fieldParameters hp hn)
      simp [hm]
    · refine hmono (fun m hm => ?_) (reached_of_queryParameters hp hn)
      simp [hm]
  · rw [Option.mem_toList] at hs
    obtain ⟨b, hb, rfl⟩ := Option.map_eq_some_iff.mp hs
    refine hmono (fun m hm => ?_) (reached_of_requestBody hb hn)
    simp [hm]
  · obtain ⟨hn, hc⟩ := mem_references_of_resolve (Option.mem_toList.mp hs) hn
    exact .root (List.mem_append_right _ hn) hc

/-- **What a document leads to is what the signatures of its requests reach.** -/
theorem Reaches.reached {s : DocumentSettings} {ks : List Controller}
    (h : (build s ks c).value.Reaches n) : c.Reached (Client.signatureReferences ks) n := by
  induction h with
  | @operation o n ho hn =>
    obtain ⟨⟨controller, r⟩, hkept, rfl⟩ := mem_operations_build.mp ho
    obtain ⟨k, hk, hr⟩ := List.mem_flatMap.mp hkept.mem
    obtain ⟨r', hr', heq⟩ := List.mem_map.mp hr
    obtain rfl : r' = r := congrArg Prod.snd heq
    refine (reached_of_operation hn).trans fun m hm hc => .root ?_ hc
    exact List.mem_flatMap.mpr ⟨r', List.mem_flatMap.mpr ⟨k, hk, hr'⟩, hm⟩
  | @component m n t hm ht hn ih =>
    rw [get?_schemas_build] at ht
    obtain ⟨d, hd, rfl⟩ := Option.map_eq_some_iff.mp ht
    obtain ⟨hdecl, rfl⟩ := Catalog.get?_eq_some_iff.mp hd
    exact ih.link hdecl (mem_links_of_mem_references hn) (grounded_synthesize c d n hn)

end Document

/-- **What a document leads to, the client declares**: each component that the operations refer to,
at once or through other components, is the name of a declaration whose text stands in an artifact
of the client of the same controllers and catalog. Its lines are those of the declaration, and the
one at the margin that exports something exports it. -/
theorem exists_declaration_of_reaches (s : DocumentSettings) (t : ClientSettings)
    (ks : List Controller) (c : Catalog) (n : String)
    (h : (Document.build s ks c).value.Reaches n) :
    ∃ d ∈ Client.usedDeclarations ks c, d.name = n ∧
      ∃ ls, ls = Client.declarationLines t.format.quote d ∧
        Client.WritesDeclaration t.format.quote d ls ∧
        Client.exports ls = [Client.declarationHead d] ∧
        ∃ a ∈ (Client.emit t ks c).value, ∃ front rest, a.contents =
          front ++ Client.render t.format.indent ls ++ rest := by
  obtain ⟨d, hd, hname⟩ := Client.exists_mem_usedDeclarations h.reached
  have hlines := Client.writes_declarationLines t.format.quote d
  exact ⟨d, hd, hname, _, rfl, hlines, hlines.exports_eq, Client.exists_contents_emit t hd⟩

/-- An operation answers with the items, these are a list, and what is in it is below another
declaration. -/
theorem exists_declaration_of_reaches_sample :
    let s : DocumentSettings := ⟨"api.json", "API", "1.0", none, false⟩
    let t : ClientSettings := ⟨"client.ts", none, none, none, none, .standard⟩
    let ks := [Document.itemsController]
    let c := (Catalog.build Document.sampleEntries).value
    (Document.build s ks c).value.Reaches "Base" ∧
      ∃ d ∈ Client.usedDeclarations ks c, d.name = "Base" ∧
        ∃ ls, ls = Client.declarationLines t.format.quote d ∧
          Client.WritesDeclaration t.format.quote d ls ∧
          Client.exports ls = [Client.declarationHead d] ∧
          ∃ a ∈ (Client.emit t ks c).value, ∃ front rest, a.contents =
            front ++ Client.render t.format.indent ls ++ rest := by
  intro s t ks c
  have hall : (Document.build s ks c).value.Reaches "Items" :=
    .operation (List.Mem.head _) (List.mem_singleton_self "Items")
  have hitems := Document.Reaches.component (n := "Item") hall rfl (by decide)
  have hitem := Document.Reaches.component (n := "Base") hitems rfl (by decide)
  exact ⟨hitem, exists_declaration_of_reaches s t ks c "Base" hitem⟩

end ApiSurface
