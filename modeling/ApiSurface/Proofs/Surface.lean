import ApiSurface.Proofs.Catalog.Building
import ApiSurface.Surface

/-!
# Source sets that overlap

The types of a task may be read from files that its controllers are read from as well. Each file
declares its types once, and how much the two sets overlap changes no more than the order in which
the declarations come.

* `result_extractSurface`, `notes_extractSurface`: a surface and its notes, put together from catalog
  and controllers;
* `Overlap`: one unit for each path, in either set and in both;
* `Overlap.mem_declaringUnits`, `Overlap.nodup_declaringUnits`: each unit declares its types once;
* `Catalog.perm_names_build`, `Catalog.length_duplicates_build`: what the order of the declarations
  does not change;
* **`extractSurface_overlapping`**: the catalog of overlapping sets, and what remains when the types
  are read from more of the files of the controllers.
-/

namespace ApiSurface

/-! ## Surfaces -/

section Surfaces

variable (framework : Framework) (types controllers : List SourceUnit)

/-- A surface takes its catalog from both sets and its controllers from one. -/
theorem result_extractSurface : (extractSurface framework types controllers).result =
    (extractControllers framework.convention controllers).result.map fun ks =>
      ⟨ks, (Catalog.build (entriesOf (declaringUnits types controllers))).value⟩ := by
  unfold extractSurface
  rw [Attempt.bind_of_ok rfl]
  cases hfound : (extractControllers framework.convention controllers).result with
  | error e => rw [Attempt.bind_of_error hfound]; rfl
  | ok ks => rw [Attempt.bind_of_ok hfound]; rfl

theorem notes_extractSurface : (extractSurface framework types controllers).notes =
    (Catalog.build (entriesOf (declaringUnits types controllers))).notes ++
      (extractControllers framework.convention controllers).notes := by
  unfold extractSurface
  rw [Attempt.bind_of_ok rfl]
  cases hfound : (extractControllers framework.convention controllers).result with
  | error e => rw [Attempt.bind_of_error hfound]; rfl
  | ok ks => rw [Attempt.bind_of_ok hfound]; simp [Attempt.ofNoted]

end Surfaces

variable {types types' controllers : List SourceUnit}

theorem catalog_extractSurface {framework : Framework} {s : Surface}
    (h : (extractSurface framework types controllers).result = .ok s) :
    s.catalog = (Catalog.build (entriesOf (declaringUnits types controllers))).value := by
  rw [result_extractSurface] at h
  cases hfound : (extractControllers framework.convention controllers).result with
  | error e => rw [hfound] at h; cases h
  | ok ks => rw [hfound] at h; cases h; rfl

/-! ## Units of both sets -/

/-- Each set has one unit for a path, and the units of a path are the same in both. -/
structure Overlap (types controllers : List SourceUnit) : Prop where
  onceInTypes : (types.map (·.path)).Nodup
  onceInControllers : (controllers.map (·.path)).Nodup
  same : ∀ u ∈ types, ∀ v ∈ controllers, u.path = v.path → u = v

namespace Overlap

theorem mem_declaringUnits (h : Overlap types controllers) {u : SourceUnit} :
    u ∈ declaringUnits types controllers ↔ u ∈ types ∨ u ∈ controllers := by
  unfold declaringUnits
  rw [List.mem_append, List.mem_filter]
  constructor
  · rintro (hu | ⟨hu, -⟩)
    · exact Or.inl hu
    · exact Or.inr hu
  · rintro (hu | hu)
    · exact Or.inl hu
    · by_cases hpath : u.path ∈ types.map (·.path)
      · obtain ⟨v, hv, hvu⟩ := List.mem_map.mp hpath
        exact Or.inl (h.same v hv u hu hvu ▸ hv)
      · exact Or.inr ⟨hu, by simpa using hpath⟩

theorem nodup_declaringUnits (h : Overlap types controllers) :
    (declaringUnits types controllers).Nodup := by
  refine List.Nodup.of_map (·.path) ?_
  unfold declaringUnits
  rw [List.map_append, List.nodup_append]
  refine ⟨h.onceInTypes, h.onceInControllers.sublist (List.filter_sublist.map _), ?_⟩
  intro p hp q hq hpq
  obtain ⟨u, hu, rfl⟩ := List.mem_map.mp hq
  have hnew := (List.mem_filter.mp hu).2
  simp only [Bool.not_eq_true', List.contains_eq_mem, decide_eq_false_iff_not] at hnew
  exact hnew (hpq ▸ hp)

/-- Reading the types from more of the files of the controllers keeps the overlap. -/
theorem enlarge (h : Overlap types controllers) (hpaths : (types'.map (·.path)).Nodup)
    (hfrom : types' ⊆ types ++ controllers) : Overlap types' controllers where
  onceInTypes := hpaths
  onceInControllers := h.onceInControllers
  same u hu v hv huv := by
    rcases List.mem_append.mp (hfrom hu) with hu | hu
    · exact h.same u hu v hv huv
    · exact List.inj_on_of_nodup_map h.onceInControllers hu hv huv

/-- It changes only the order of the units. -/
theorem perm_declaringUnits (h : Overlap types controllers)
    (hpaths : (types'.map (·.path)).Nodup) (hmore : types ⊆ types')
    (hfrom : types' ⊆ types ++ controllers) :
    (declaringUnits types' controllers).Perm (declaringUnits types controllers) := by
  have h' := h.enlarge hpaths hfrom
  refine (List.perm_ext_iff_of_nodup h'.nodup_declaringUnits h.nodup_declaringUnits).mpr fun u => ?_
  rw [h'.mem_declaringUnits, h.mem_declaringUnits]
  constructor
  · rintro (hu | hu)
    · exact List.mem_append.mp (hfrom hu)
    · exact Or.inr hu
  · rintro (hu | hu)
    · exact Or.inl (hmore hu)
    · exact Or.inr hu

end Overlap

/-! ## Catalogs of declarations in another order -/

namespace Catalog

variable {es es' : List Entry}

theorem mem_names_build {n : String} :
    n ∈ (build es).value.names ↔ ∃ e ∈ exported es, e.name = n := by
  have hnames : (build es).value.names = ((exported es).map Entry.name).eraseDups :=
    (collected_collect es).names
  rw [hnames, List.mem_eraseDups, List.mem_map]

/-- The declared names do not depend on order. -/
theorem perm_names_build (h : es.Perm es') :
    (build es).value.names.Perm (build es').value.names := by
  refine (List.perm_ext_iff_of_nodup (build es).value.distinct (build es').value.distinct).mpr ?_
  intro n
  have hexported : (exported es).Perm (exported es') := h.filter _
  change n ∈ (build es).value.names ↔ n ∈ (build es').value.names
  rw [mem_names_build, mem_names_build]
  simp only [hexported.mem_iff]

/-- Each exported entry is kept as the first of its name, or a note tells what it replaces. -/
theorem length_duplicates_add (es : List Entry) :
    ((build es).notes.filter fun n => n.code = .duplicateDeclaration).length +
      (build es).value.names.length = (exported es).length := by
  have hcounted := (collected_collect es).counted
  rw [(collected_collect es).noted, ← duplicates_build] at hcounted
  unfold Table.names
  rw [List.length_map]
  exact hcounted

/-- The number of replaced declarations does not depend on order. -/
theorem length_duplicates_build (h : es.Perm es') :
    ((build es).notes.filter fun n => n.code = .duplicateDeclaration).length =
      ((build es').notes.filter fun n => n.code = .duplicateDeclaration).length := by
  have hexported : (exported es).length = (exported es').length := (h.filter _).length_eq
  have hnames := (perm_names_build h).length_eq
  have hes := length_duplicates_add es
  have hes' := length_duplicates_add es'
  omega

end Catalog

/-! ## Overlapping sets -/

/-- **Source sets that overlap.** The catalog has the declarations of each unit of either set once,
those of the types first, and so every exported name. When the types are read from more of the files
of the controllers, in any order, the surface has the same controllers and its catalog the same
names, and as many declarations are replaced; or it fails as before. -/
theorem extractSurface_overlapping (framework : Framework) (h : Overlap types controllers) :
    let units := declaringUnits types controllers
    let r := extractSurface framework types controllers
    (units.Nodup ∧ (∀ u, u ∈ units ↔ u ∈ types ∨ u ∈ controllers) ∧ types <+: units) ∧
      (∀ s, r.result = .ok s → s.catalog = (Catalog.build (entriesOf units)).value ∧
        ∀ u, u ∈ types ∨ u ∈ controllers → ∀ d ∈ u.declarations,
          d.exported = true → s.catalog.contains d.name = true) ∧
      ∀ types', (types'.map (·.path)).Nodup → types ⊆ types' → types' ⊆ types ++ controllers →
        let r' := extractSurface framework types' controllers
        r'.result.map Surface.controllers = r.result.map Surface.controllers ∧
          (∀ s s', r.result = .ok s → r'.result = .ok s' →
            s'.catalog.names.Perm s.catalog.names) ∧
          (r'.notes.filter fun n => n.code = .duplicateDeclaration).length =
            (r.notes.filter fun n => n.code = .duplicateDeclaration).length := by
  intro units r
  refine ⟨⟨h.nodup_declaringUnits, fun u => h.mem_declaringUnits, List.prefix_append _ _⟩,
    fun s hs => ⟨catalog_extractSurface hs, fun u hu d hd hexported => ?_⟩,
    fun types' hpaths hmore hfrom => ?_⟩
  · have hentry : (⟨d, u.path⟩ : Entry) ∈ entriesOf units :=
      List.mem_flatMap.mpr ⟨u, h.mem_declaringUnits.mpr hu, List.mem_map.mpr ⟨d, hd, rfl⟩⟩
    rw [catalog_extractSurface hs, ← Catalog.mem_names, Catalog.mem_names_build]
    exact ⟨⟨d, u.path⟩, List.mem_filter.mpr ⟨hentry, hexported⟩, rfl⟩
  · have hperm : (entriesOf (declaringUnits types' controllers)).Perm (entriesOf units) :=
      (h.perm_declaringUnits hpaths hmore hfrom).flatMap_right _
    refine ⟨?_, fun s s' hs hs' => ?_, ?_⟩
    · rw [result_extractSurface, result_extractSurface]
      cases (extractControllers framework.convention controllers).result <;> rfl
    · rw [catalog_extractSurface hs, catalog_extractSurface hs']
      exact Catalog.perm_names_build hperm
    · rw [notes_extractSurface, notes_extractSurface, List.filter_append, List.filter_append,
        List.length_append, List.length_append, Catalog.length_duplicates_build hperm]

/-- A file that declares `User`. -/
def userUnit : SourceUnit := ⟨"user.ts", [], [⟨"User", none, true, .alias (.keyword .string) []⟩]⟩

/-- A file with a controller that declares `User` as well, and `Page`. -/
def apiUnit : SourceUnit :=
  ⟨"api.ts",
    [⟨"Api", none, [⟨"Controller", []⟩], [⟨"list", none, [⟨"Get", []⟩], [], none⟩]⟩],
    [⟨"User", none, true, .alias (.keyword .number) []⟩,
      ⟨"Page", none, true, .interface ⟨[], ["User"], []⟩⟩]⟩

/-- Which declaration of `User` is kept changes with the file that is read for types first. -/
theorem extractSurface_overlapping_users :
    let controllers := [apiUnit, userUnit]
    let r := extractSurface .nest [userUnit] controllers
    let r' := extractSurface .nest [apiUnit, userUnit] controllers
    let kept (types : List SourceUnit) : Option String :=
      let c := (Catalog.build (entriesOf (declaringUnits types controllers))).value
      Option.map Entry.source <| c.entry? "User"
    Overlap [userUnit] controllers ∧
      r'.result.map Surface.controllers = r.result.map Surface.controllers ∧
      (∀ s s', r.result = .ok s → r'.result = .ok s' → s'.catalog.names.Perm s.catalog.names) ∧
      (r'.notes.filter fun n => n.code = .duplicateDeclaration).length =
        (r.notes.filter fun n => n.code = .duplicateDeclaration).length ∧
      kept [userUnit] = some "api.ts" ∧ kept [apiUnit, userUnit] = some "user.ts" := by
  intro controllers r r' kept
  have hoverlap : Overlap [userUnit] controllers := by
    refine ⟨by decide, by decide, fun u hu v hv huv => ?_⟩
    cases List.mem_singleton.mp hu
    rcases List.mem_pair.mp hv with rfl | rfl
    · exact absurd huv (by decide)
    · rfl
  obtain ⟨-, -, hmore⟩ := extractSurface_overlapping .nest hoverlap
  obtain ⟨hcontrollers, hnames, hduplicates⟩ := hmore [apiUnit, userUnit] (by decide)
    (List.subset_cons_self _ _) (List.subset_append_right _ _)
  exact ⟨hoverlap, hcontrollers, hnames, hduplicates, by decide, by decide⟩

end ApiSurface
