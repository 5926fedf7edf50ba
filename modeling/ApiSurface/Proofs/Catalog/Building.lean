import ApiSurface.Proofs.Catalog.Lookup
import ApiSurface.Proofs.Firsts

/-!
# Building a catalog

A catalog is built entry by entry. After any number of exported entries it has one for each of their
names, in the order of first appearance: the last one that has the name. Each entry that came too
late to be the first of its name left a note on the one before it.

* `Catalog.displacements`: the notes of entries on those they take the place of;
* `Catalog.Collected`: what holds after some exported entries, kept by one more (`Collected.put`)
  and by all (`collected_collect`);
* `Catalog.collect_exported`: entries that are not exported leave no trace;
* `Catalog.mem_edges_iff`, `length_edges_add`: the edges of the graph, and how many there are;
* **`Catalog.build_entries`**: the entries, the look-up, the notes and the links of a catalog.
-/

namespace ApiSurface.Catalog

variable {c : Catalog}

/-! ## What is expected -/

/-- The last of some entries that has a name. -/
def lastOf (es : List Entry) (n : String) : Option Entry := es.reverse.find? fun e => e.name = n

theorem lastOf_append_singleton (es : List Entry) (e : Entry) (n : String) :
    lastOf (es ++ [e]) n = if n = e.name then some e else lastOf es n := by
  unfold lastOf
  rw [List.reverse_append, List.reverse_singleton, List.singleton_append, List.find?_cons]
  by_cases h : n = e.name
  · simp [h]
  · simp [h, Ne.symm h]

/-- The note of an entry that comes after others, if one of them has its name: it names the files of
the entry and of the last of them. -/
def displacement (before : List Entry) (e : Entry) : List Note :=
  (lastOf before e.name).toList.map fun old =>
    Note.duplicateDeclaration e.name e.source old.source

/-- The notes of entries on those they take the place of, each from those before it. -/
def displacements (es : List Entry) : List Note :=
  es.zipIdx.flatMap fun e => displacement (es.take e.2) e.1

theorem displacements_append_singleton (es : List Entry) (e : Entry) :
    displacements (es ++ [e]) = displacements es ++ displacement es e := by
  unfold displacements
  rw [List.zipIdx_append, List.flatMap_append]
  congr 1
  · refine List.flatMap_congr fun f hf => ?_
    have hlt : f.2 < es.length := by
      have := List.snd_lt_of_mem_zipIdx hf
      omega
    rw [List.take_append_of_le_length (by omega)]
  · simp

theorem code_of_mem_displacements {es : List Entry} {n : Note} (hn : n ∈ displacements es) :
    n.code = .duplicateDeclaration := by
  obtain ⟨e, -, hn⟩ := List.mem_flatMap.mp hn
  obtain ⟨old, -, rfl⟩ := List.mem_map.mp hn
  rfl

/-! ## One more entry -/

theorem mem_names_iff {t : Table} {n : String} :
    n ∈ t.names ↔ (t.index.lookup n).isSome = true := by
  rw [← Table.isSome_entry?, Option.isSome_iff_ne_none, ne_eq, Table.entry?_eq_none_iff, not_not]
  exact Iff.rfl

theorem names_put (t : Table) (e : Entry) :
    (t.put e).names = if e.name ∈ t.names then t.names else t.names ++ [e.name] := by
  have hmem := mem_names_iff (t := t) (n := e.name)
  cases hplace : t.index.lookup e.name with
  | none =>
    rw [Table.put_of_none hplace, if_neg (by simp [hmem, hplace])]
    exact List.map_append
  | some place =>
    rw [Table.put_of_some hplace, if_pos (by simp [hmem, hplace])]
    refine List.ext_getElem? fun i => Option.ext fun n => ?_
    unfold Table.names
    rw [List.getElem?_map, List.getElem?_map]
    exact (Table.agrees_set hplace n i).symm.trans (t.agrees n i)

/-- What holds of the table built and the notes taken for some exported entries. -/
structure Collected (es : List Entry) (t : Table) (notes : List Note) : Prop where
  names : t.names = (es.map Entry.name).eraseDups
  entry : ∀ n, t.entry? n = lastOf es n
  noted : notes = displacements es
  counted : notes.length + t.size = es.length

theorem collected_nil : Collected [] Table.empty [] := ⟨rfl, fun _ => rfl, rfl, rfl⟩

variable {t : Table} {es : List Entry} {notes : List Note}

theorem Collected.replacement_eq (h : Collected es t notes) (e : Entry) :
    t.replacement e = displacement es e := by
  unfold Table.replacement displacement
  rw [h.entry]
  cases lastOf es e.name <;> rfl

theorem size_put (t : Table) (e : Entry) :
    (t.replacement e).length + (t.put e).size = t.size + 1 := by
  have hentry := t.isSome_entry? e.name
  cases hplace : t.index.lookup e.name with
  | none =>
    rw [hplace, Option.isSome_none, Option.isSome_eq_false_iff, Option.isNone_iff_eq_none] at hentry
    rw [Table.put_of_none hplace]
    simp [Table.replacement, Table.size, hentry]
  | some place =>
    rw [hplace] at hentry
    obtain ⟨old, hold⟩ := Option.isSome_iff_exists.mp hentry
    rw [Table.put_of_some hplace]
    simp [Table.replacement, Table.size, hold]
    omega

/-- **One more exported entry.** -/
theorem Collected.put (h : Collected es t notes) (e : Entry) :
    Collected (es ++ [e]) (t.put e) (notes ++ t.replacement e) where
  names := by
    rw [names_put, h.names, List.map_append, List.map_singleton, eraseDups_append_singleton]
    simp only [List.mem_eraseDups]
  entry n := by rw [Table.entry?_put, lastOf_append_singleton, h.entry]
  noted := by rw [displacements_append_singleton, h.noted, h.replacement_eq]
  counted := by
    have hsize := size_put t e
    have hcounted := h.counted
    rw [List.length_append, List.length_append, List.length_singleton]
    omega

/-- **All entries**, one after the other. -/
theorem Collected.collect (h : Collected es t notes) (more : List Entry) :
    Collected (es ++ exported more) (t.collect more).value (notes ++ (t.collect more).notes) := by
  induction more generalizing t es notes with
  | nil =>
    change Collected (es ++ []) t (notes ++ [])
    rwa [List.append_nil, List.append_nil]
  | cons e more ih =>
    rw [exported, List.filter_cons, Table.collect]
    split_ifs
    · have hmore := ih (h.put e)
      rw [List.append_assoc, List.append_assoc, List.singleton_append] at hmore
      exact hmore
    · exact ih h

theorem collected_collect (es : List Entry) :
    Collected (exported es) (Table.empty.collect es).value (Table.empty.collect es).notes :=
  collected_nil.collect es

/-! ## Entries that are not exported -/

theorem collect_exported (t : Table) (es : List Entry) :
    t.collect (exported es) = t.collect es := by
  induction es generalizing t with
  | nil => rfl
  | cons e es ih =>
    rw [exported, List.filter_cons]
    split_ifs with h
    · have hput := ih (t.put e)
      rw [exported] at hput
      rw [Table.collect, Table.collect, if_pos h, if_pos h, hput]
    · rw [Table.collect, if_neg h]
      exact ih t

/-! ## Links -/

/-- The graph has an edge from one place to another exactly if the name at the second is a supertype
of the declaration at the first. -/
theorem mem_edges_iff (c : Catalog) (i j : ℕ) : (i, j) ∈ c.edges ↔
    ∃ e, c.entries[i]? = some e ∧ ∃ s ∈ e.declaration.supertypes, c.nameAt? j = some s := by
  have hfind : ∀ s, (c.entries.findIdx? fun e => e.name = s) = some j ↔ c.nameAt? j = some s :=
    fun s => by rw [← c.lookup_eq_findIdx?, c.agrees]; rfl
  rw [c.linked, Table.edgesBy]
  simp only [List.mem_flatMap, List.mem_filterMap, Option.map_eq_some_iff, Prod.mk.injEq,
    Prod.exists, List.mk_mem_zipIdx_iff_getElem?, exists_eq_right_right, hfind]
  constructor
  · rintro ⟨e, k, he, s, hs, hj, rfl⟩
    exact ⟨e, he, s, hs, hj⟩
  · rintro ⟨e, he, s, hs, hj⟩
    exact ⟨e, i, he, s, hs, hj, rfl⟩

/-- The graph has an edge for each supertype that is declared. -/
theorem length_edges (c : Catalog) : c.edges.length =
    ((c.declarations.flatMap Declaration.supertypes).filter c.contains).length := by
  have hone : ∀ e : Entry × ℕ, (e.1.declaration.supertypes.filterMap fun s =>
      (c.index.lookup s).map fun place => (e.2, place)).length =
        (e.1.declaration.supertypes.filter c.contains).length := by
    intro e
    rw [List.length_filterMap_eq_countP, List.countP_eq_length_filter]
    simp only [Option.isSome_map]
    rfl
  rw [c.linked, Table.edgesBy]
  simp only [← c.lookup_eq_findIdx?, List.length_flatMap, hone]
  rw [List.filter_flatMap, List.length_flatMap, declarations, List.map_map]
  conv_rhs => rw [← List.zipIdx_map_fst 0 c.entries, List.map_map]
  rfl

/-- Every supertype is an edge of the graph or is missing. -/
theorem length_edges_add (c : Catalog) : c.edges.length + c.missingSupertypes.length =
    (c.declarations.flatMap Declaration.supertypes).length := by
  have hlinks : c.links.map Prod.snd = c.declarations.flatMap Declaration.supertypes := by
    simp [links, List.map_flatMap, Function.comp_def]
  have hmissing : c.missingSupertypes.length =
      ((c.declarations.flatMap Declaration.supertypes).filter fun s => !c.contains s).length := by
    rw [missingSupertypes, List.length_map, ← hlinks, List.filter_map, List.length_map]
    rfl
  rw [length_edges, hmissing]
  exact (List.length_eq_length_filter_add c.contains).symm

/-! ## The whole catalog -/

/-- The notes on a catalog: on what was replaced, on what is missing, on what refers back to
itself. -/
theorem notes_build (es : List Entry) : (build es).notes =
    displacements (exported es) ++ (build es).value.missingSupertypes ++
      (build es).value.cycles.map Note.inheritanceCycle := by
  have hnotes : (build es).notes = (Table.empty.collect es).notes ++
      ((build es).value.missingSupertypes ++
        ((build es).value.cycles.map Note.inheritanceCycle ++ [])) := rfl
  rw [hnotes, (collected_collect es).noted, List.append_nil, List.append_assoc]

/-- Of notes on three subjects, those on one. -/
theorem filter_code_eq {code : NoteCode} {before those after : List Note}
    (hbefore : ∀ n ∈ before, n.code ≠ code) (hthose : ∀ n ∈ those, n.code = code)
    (hafter : ∀ n ∈ after, n.code ≠ code) :
    (before ++ those ++ after).filter (fun n => n.code = code) = those := by
  have hnone : ∀ ns : List Note, (∀ n ∈ ns, n.code ≠ code) →
      ns.filter (fun n => n.code = code) = [] := by
    intro ns h
    simpa using h
  have hall : those.filter (fun n => n.code = code) = those := by simpa using hthose
  rw [List.filter_append, List.filter_append, hnone before hbefore, hnone after hafter, hall,
    List.nil_append, List.append_nil]

theorem code_of_mem_missingSupertypes {n : Note} (hn : n ∈ c.missingSupertypes) :
    n.code = .unresolvedReference := by
  obtain ⟨l, -, rfl⟩ := List.mem_map.mp hn
  rfl

theorem code_of_mem_cycleNotes {n : Note} (hn : n ∈ c.cycles.map Note.inheritanceCycle) :
    n.code = .inheritanceCycle := by
  obtain ⟨ns, -, rfl⟩ := List.mem_map.mp hn
  rfl

theorem duplicates_build (es : List Entry) :
    (build es).notes.filter (fun n => n.code = .duplicateDeclaration) =
      displacements (exported es) := by
  rw [notes_build, List.append_assoc, ← List.nil_append (displacements _)]
  refine filter_code_eq nofun (fun n hn => code_of_mem_displacements hn) fun n hn => ?_
  rcases List.mem_append.mp hn with hn | hn
  · rw [code_of_mem_missingSupertypes hn]
    decide
  · rw [code_of_mem_cycleNotes hn]
    decide

theorem unresolved_build (es : List Entry) :
    (build es).notes.filter (fun n => n.code = .unresolvedReference) =
      (build es).value.missingSupertypes := by
  rw [notes_build]
  refine filter_code_eq (fun n hn => ?_) (fun n hn => code_of_mem_missingSupertypes hn)
    fun n hn => ?_
  · rw [code_of_mem_displacements hn]
    decide
  · rw [code_of_mem_cycleNotes hn]
    decide

/-- **What a catalog is built of.** It has one entry for each exported name, in the order of first
appearance, and under each name the last exported one, which all look-up finds; entries that are not
exported leave no trace. Each exported entry is kept as the first of its name or left a note on the
one before it, and each supertype is a link or left a note. -/
theorem build_entries (es : List Entry) :
    let c := (build es).value
    let duplicates := (build es).notes.filter fun n => n.code = .duplicateDeclaration
    let unresolved := (build es).notes.filter fun n => n.code = .unresolvedReference
    (c.names.Nodup ∧ c.names = ((exported es).map Entry.name).eraseDups) ∧
      (∀ n e, c.entry? n = some e ↔ e ∈ c.entries ∧ e.name = n) ∧
      (∀ n d, c.get? n = some d ↔ ∃ e ∈ c.entries, e.declaration = d ∧ e.name = n) ∧
      (∀ n, c.contains n = true ↔ ∃ e ∈ c.entries, e.name = n) ∧
      (∀ n, c.entry? n = lastOf (exported es) n) ∧
      build (exported es) = build es ∧
      duplicates = displacements (exported es) ∧
      duplicates.length + c.entries.length = (exported es).length ∧
      unresolved = (c.links.filter fun l => !c.contains l.2).map (fun l => Note.unresolved l.1 l.2) ∧
      c.edges.length + unresolved.length =
        (c.declarations.flatMap Declaration.supertypes).length := by
  intro c duplicates unresolved
  have hcollected := collected_collect es
  have hduplicates : duplicates = displacements (exported es) := duplicates_build es
  have hunresolved : unresolved = c.missingSupertypes := unresolved_build es
  refine ⟨⟨c.distinct, hcollected.names⟩, fun n e => Table.entry?_eq_some_iff, fun n d => ?_,
    fun n => ?_, hcollected.entry, ?_, hduplicates, ?_, hunresolved, ?_⟩
  · rw [get?_eq_some_iff, declarations, List.mem_map]
    constructor
    · rintro ⟨⟨e, he, rfl⟩, hn⟩
      exact ⟨e, he, rfl, hn⟩
    · rintro ⟨e, he, rfl, hn⟩
      exact ⟨⟨e, he, rfl⟩, hn⟩
  · rw [contains, ← Table.isSome_entry?, Option.isSome_iff_exists]
    exact exists_congr fun e => Table.entry?_eq_some_iff
  · unfold build
    rw [collect_exported]
  · rw [hduplicates, ← hcollected.noted]
    exact hcollected.counted
  · rw [hunresolved]
    exact c.length_edges_add

end ApiSurface.Catalog
