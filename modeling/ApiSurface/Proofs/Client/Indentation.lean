import ApiSurface.Client.Emit
import ApiSurface.Proofs.Client.Imports
import ApiSurface.Proofs.Client.Margin

/-!
# Clients at other indentations

The number of blanks a level moves the lines of a client and changes nothing else, as long as no
imported name has a line break: whether code mentions such a name depends on the blanks inside it.

* `requestBody`, `keptImports`, `typesUnit`, `artifacts_eq`: the parts of the artifacts;
* `boundNames_pruneAll`: the names that imports keep are those that code mentions;
* `flushed_requestBody`, `flushed_typesUnit`: the parts at the margin;
* **`emit_withIndent`**: the same client for two numbers of blanks a level;
* `emit_withIndent_lineBreak`: a name with a line break that is imported for one of two numbers.
-/

namespace ApiSurface

/-- Settings with another number of blanks a level. -/
def ClientSettings.withIndent (s : ClientSettings) (indent : Nat) : ClientSettings :=
  { s with format := { s.format with indent := indent } }

namespace Client

open ApiSurface.Text

variable {s : ClientSettings} {ks : List Controller} {c : Catalog} {body body' : String}

/-! ## The parts of units -/

/-- What the request unit can import: the function that performs calls, and the types. -/
def requestImports (s : ClientSettings) (ks : List Controller) (c : Catalog) : List Import :=
  (callTarget s).imported :: (s.typesOutput.map (typesImport s ks c)).toList

/-- The request unit behind its imports. -/
def requestBody (s : ClientSettings) (ks : List Controller) (c : Catalog) : String :=
  if s.typesOutput.isSome || (typesText s ks c).isEmpty then functionText s ks
  else functionText s ks ++ "\n" ++ typesText s ks c

/-- The unit of types. -/
def typesUnit (s : ClientSettings) (ks : List Controller) (c : Catalog) : String :=
  header s ++ (if (typesText s ks c).isEmpty then "export \x7b\x7d;\n" else typesText s ks c)

/-- What is left of imports for the names that code uses. -/
def pruneAll (imports : List Import) (body : String) : List Import :=
  imports.filterMap fun i => i.pruned body

/-- The imports of the request unit. -/
def keptImports (s : ClientSettings) (ks : List Controller) (c : Catalog) : List Import :=
  pruneAll (requestImports s ks c) (requestBody s ks c)

/-- The lines of imports, and an empty line. -/
def importLines (q : QuoteStyle) (imports : List Import) : String :=
  if imports.isEmpty then "" else "\n".intercalate (imports.map (Import.text q)) ++ "\n\n"

theorem artifacts_eq (s : ClientSettings) (ks : List Controller) (c : Catalog) :
    artifacts s ks c =
      ⟨s.output, header s ++ importLines s.format.quote (keptImports s ks c) ++
        requestBody s ks c⟩ ::
      (s.typesOutput.map fun out => ⟨out, typesUnit s ks c⟩).toList := by
  unfold artifacts keptImports requestBody requestImports
  cases s.typesOutput <;> rfl

theorem paths_artifacts (s : ClientSettings) (ks : List Controller) (c : Catalog) :
    (artifacts s ks c).map (·.path) = s.output :: s.typesOutput.toList := by
  rw [artifacts_eq, List.map_cons]
  cases s.typesOutput <;> rfl

/-! ## Names of imports -/

/-- The names that an import binds. -/
def Import.names (i : Import) : List String := i.primary.toList ++ i.named

/-- The names that imports bind. -/
def boundNames (imports : List Import) : List String := imports.flatMap Import.names

theorem Import.names_pruned (i : Import) (body : String) :
    boundNames (i.pruned body).toList = i.names.filter (mentions (code body)) := by
  have hprimary : (i.primary.filter (mentions (code body))).toList =
      i.primary.toList.filter (mentions (code body)) := Option.toList_filter
  rw [names, List.filter_append, ← hprimary, pruned]
  split_ifs with hnone
  · rw [Bool.and_eq_true, Option.isNone_iff_eq_none, List.isEmpty_iff] at hnone
    rw [hnone.1, hnone.2]
    rfl
  · exact List.flatMap_singleton _ _

/-- Imports keep the names that code mentions. -/
theorem boundNames_pruneAll (imports : List Import) (body : String) :
    boundNames (pruneAll imports body) = (boundNames imports).filter (mentions (code body)) := by
  have hnames (i : Import) := i.names_pruned body
  unfold boundNames at hnames ⊢
  rw [pruneAll, List.filterMap_eq_flatMap_toList, List.flatMap_assoc, List.filter_flatMap]
  exact congrArg (imports.flatMap ·) (funext hnames)

theorem Import.pruned_congr {i : Import}
    (h : ∀ n ∈ i.names, mentions (code body) n = mentions (code body') n) :
    i.pruned body = i.pruned body' := by
  have hprimary : i.primary.filter (mentions (code body)) =
      i.primary.filter (mentions (code body')) := by
    unfold names at h
    cases hi : i.primary with
    | none => rw [Option.filter_none, Option.filter_none]
    | some n =>
      rw [hi] at h
      rw [Option.filter_some, Option.filter_some, h n List.mem_cons_self]
  have hnamed : i.named.filter (mentions (code body)) = i.named.filter (mentions (code body')) :=
    List.filter_congr fun n hn => h n (List.mem_append_right _ hn)
  rw [pruned, pruned, hprimary, hnamed]

theorem pruneAll_congr {imports : List Import}
    (h : ∀ n ∈ boundNames imports, mentions (code body) n = mentions (code body') n) :
    pruneAll imports body = pruneAll imports body' :=
  List.filterMap_congr fun i hi => Import.pruned_congr fun n hn =>
    h n (List.mem_flatMap.mpr ⟨i, hi, hn⟩)

/-- The names of what performs calls have no line breaks. -/
theorem oneLine_callTarget {n : String} (hn : n ∈ (callTarget s).imported.names) : OneLine n := by
  revert n
  unfold callTarget
  cases s.requestModule with
  | none => decide
  | some m =>
    intro n hn
    rw [List.mem_singleton.mp hn]
    decide

theorem oneLine_requestImports
    (h : ∀ out ∈ s.typesOutput, ∀ n ∈ (typesImport s ks c out).named, OneLine n) :
    ∀ n ∈ boundNames (requestImports s ks c), OneLine n := by
  intro n hn
  obtain ⟨i, hi, hn⟩ := List.mem_flatMap.mp hn
  rcases List.mem_cons.mp hi with rfl | hi
  · exact oneLine_callTarget hn
  · obtain ⟨out, hout, rfl⟩ := Option.map_eq_some_iff.mp (Option.mem_toList.mp hi)
    exact h out hout n hn

/-! ## Units at the margin -/

theorem wholeLines_header (s : ClientSettings) : WholeLines (header s) := by
  unfold header
  split
  · exact Or.inl rfl
  · split_ifs
    · exact wholeLines_emptyLine _
    · exact Or.inr ⟨_, rfl⟩

theorem wholeLines_importLines (q : QuoteStyle) (imports : List Import) :
    WholeLines (importLines q imports) := by
  unfold importLines
  split_ifs
  · exact Or.inl rfl
  · exact wholeLines_emptyLine _

section Margin

variable (s : ClientSettings) (ks : List Controller) (c : Catalog) (i j : Nat)

theorem flushed_functionText :
    flushed (functionText (s.withIndent i) ks) = flushed (functionText (s.withIndent j) ks) :=
  flushed_render i j (namespaces s (callTarget s) ks)

theorem flushed_typesText :
    flushed (typesText (s.withIndent i) ks c) = flushed (typesText (s.withIndent j) ks c) :=
  flushed_render i j (spaced ((usedDeclarations ks c).map (declarationLines s.format.quote)))

/-- Whether there are types depends on no number of blanks. -/
theorem isEmpty_typesText :
    (typesText (s.withIndent i) ks c).isEmpty = (typesText (s.withIndent j) ks c).isEmpty := by
  rw [Bool.eq_iff_iff, String.isEmpty_iff, String.isEmpty_iff]
  exact render_eq_empty_iff.trans render_eq_empty_iff.symm

theorem flushed_requestBody :
    flushed (requestBody (s.withIndent i) ks c) = flushed (requestBody (s.withIndent j) ks c) := by
  have hfunctions := flushed_functionText s ks i j
  have houtput : (s.withIndent i).typesOutput = (s.withIndent j).typesOutput := rfl
  rw [requestBody, requestBody, houtput, isEmpty_typesText s ks c i j]
  split_ifs
  · exact hfunctions
  · rw [flushed_append_break, flushed_append_break, hfunctions, flushed_typesText s ks c i j]

theorem flushed_typesUnit :
    flushed (typesUnit (s.withIndent i) ks c) = flushed (typesUnit (s.withIndent j) ks c) := by
  have hheader : header (s.withIndent i) = header (s.withIndent j) := rfl
  rw [typesUnit, typesUnit, hheader, isEmpty_typesText s ks c i j,
    flushed_append (wholeLines_header _), flushed_append (wholeLines_header _)]
  split_ifs
  · rfl
  · rw [flushed_typesText s ks c i j]

/-- Names without line breaks are words of both bodies or of none. -/
theorem mentions_requestBody {n : String} (hn : OneLine n) :
    mentions (code (requestBody (s.withIndent i) ks c)) n =
      mentions (code (requestBody (s.withIndent j) ks c)) n :=
  mentions_code_congr hn (flushed_requestBody s ks c i j)

theorem requestImports_withIndent :
    requestImports (s.withIndent i) ks c = requestImports s ks c := rfl

theorem keptImports_withIndent
    (h : ∀ out ∈ s.typesOutput, ∀ n ∈ (typesImport s ks c out).named, OneLine n) :
    keptImports (s.withIndent i) ks c = keptImports (s.withIndent j) ks c := by
  rw [keptImports, keptImports, requestImports_withIndent, requestImports_withIndent]
  exact pruneAll_congr fun n hn =>
    mentions_requestBody s ks c i j (oneLine_requestImports h n hn)

/-- Of the names without line breaks, the same are imported. -/
theorem boundNames_withIndent :
    (boundNames (keptImports (s.withIndent i) ks c)).filter OneLine =
      (boundNames (keptImports (s.withIndent j) ks c)).filter OneLine := by
  rw [keptImports, keptImports, requestImports_withIndent, requestImports_withIndent,
    boundNames_pruneAll, boundNames_pruneAll, List.filter_filter, List.filter_filter]
  refine List.filter_congr fun n _ => ?_
  by_cases hn : OneLine n
  · rw [mentions_requestBody s ks c i j hn]
  · rw [decide_eq_false hn, Bool.false_and, Bool.false_and]

theorem paths_withIndent :
    (artifacts (s.withIndent i) ks c).map (·.path) =
      (artifacts (s.withIndent j) ks c).map (·.path) := by
  rw [paths_artifacts, paths_artifacts]
  rfl

theorem notes_withIndent :
    (emit (s.withIndent i) ks c).notes = (emit (s.withIndent j) ks c).notes := by
  have hnotes (t : ClientSettings) : (emit t ks c).notes = namespaceNotes ks := rfl
  rw [hnotes, hnotes]

theorem contents_withIndent
    (h : keptImports (s.withIndent i) ks c = keptImports (s.withIndent j) ks c) :
    (artifacts (s.withIndent i) ks c).map (fun a => unindented a.contents) =
      (artifacts (s.withIndent j) ks c).map fun a => unindented a.contents := by
  have hheader : header (s.withIndent i) = header (s.withIndent j) := rfl
  have hquote : (s.withIndent i).format.quote = (s.withIndent j).format.quote := rfl
  have houtput : (s.withIndent i).typesOutput = (s.withIndent j).typesOutput := rfl
  have hfront := wholeLines_append (wholeLines_header (s.withIndent j))
    (wholeLines_importLines (s.withIndent j).format.quote (keptImports (s.withIndent j) ks c))
  rw [artifacts_eq, artifacts_eq, List.map_cons, List.map_cons, hheader, hquote, houtput, h]
  dsimp only
  rw [unindented_eq, unindented_eq, flushed_append hfront, flushed_append hfront,
    flushed_requestBody s ks c i j]
  cases (s.withIndent j).typesOutput with
  | none => rw [Option.map_none, Option.map_none]
  | some out =>
    rw [Option.map_some, Option.map_some, Option.toList_some, Option.toList_some,
      List.map_singleton, List.map_singleton]
    dsimp only
    rw [unindented_eq (typesUnit _ _ _), unindented_eq (typesUnit _ _ _),
      flushed_typesUnit s ks c i j]

end Margin

/-- **The number of blanks a level is cosmetic.** The client has the same paths and notes. Of the
names without line breaks it imports the same, and of all names unless one that the unit of types
could provide has a line break. As long as the imports are the same, all lines are the same but for
the spaces at their starts. -/
theorem emit_withIndent (s : ClientSettings) (ks : List Controller) (c : Catalog) (i j : Nat) :
    let a := emit (s.withIndent i) ks c
    let b := emit (s.withIndent j) ks c
    a.value.map (·.path) = b.value.map (·.path) ∧ a.notes = b.notes ∧
    (boundNames (keptImports (s.withIndent i) ks c)).filter OneLine =
      (boundNames (keptImports (s.withIndent j) ks c)).filter OneLine ∧
    ((∀ out ∈ s.typesOutput, ∀ n ∈ (typesImport s ks c out).named, OneLine n) →
      keptImports (s.withIndent i) ks c = keptImports (s.withIndent j) ks c) ∧
    (keptImports (s.withIndent i) ks c = keptImports (s.withIndent j) ks c →
      a.value.map (fun u => unindented u.contents) =
        b.value.map fun u => unindented u.contents) := by
  intro a b
  exact ⟨paths_withIndent s ks c i j, notes_withIndent s ks c i j, boundNames_withIndent s ks c i j,
    keptImports_withIndent s ks c i j, contents_withIndent s ks c i j⟩

theorem emit_withIndent_filter :
    let c := (Catalog.build filterEntries).value
    let a := emit (filterSettings.withIndent 2) [filterController] c
    let b := emit (filterSettings.withIndent 4) [filterController] c
    (∀ out ∈ filterSettings.typesOutput,
        ∀ n ∈ (typesImport filterSettings [filterController] c out).named, OneLine n) ∧
      keptImports (filterSettings.withIndent 2) [filterController] c =
        keptImports (filterSettings.withIndent 4) [filterController] c ∧
      a.value.map (fun u => unindented u.contents) =
        b.value.map fun u => unindented u.contents := by
  intro c
  have hnames : ∀ out ∈ filterSettings.typesOutput,
      ∀ n ∈ (typesImport filterSettings [filterController] c out).named, OneLine n := by
    intro out _ n hn
    obtain ⟨d, hd, rfl⟩ := Catalog.contains_iff.mp ((mem_typesImport filterSettings out).mp hn).2
    have hdeclared : ∀ d ∈ c.declarations, OneLine d.name := by decide
    exact hdeclared d hd
  obtain ⟨-, -, -, hkept, hcontents⟩ := emit_withIndent filterSettings [filterController] c 2 4
  exact ⟨hnames, hkept hnames, hcontents (hkept hnames)⟩

/-- A name with a line break and with blanks behind it. -/
def breakName : String := "(\x7b\n      method"

/-- Declarations of this name. -/
def breakCatalog : Catalog :=
  (Catalog.build [⟨⟨breakName, none, true, .interface ⟨[], [], []⟩⟩, "b.ts"⟩]).value

/-- A controller with a request that answers with it. -/
def breakController : Controller :=
  ⟨"u", "a.ts", "/", none, [⟨"all", none, "/", .get, [], none, none, .reference breakName []⟩]⟩

/-- Settings with a unit for the types and a module for the calls. -/
def breakSettings : ClientSettings :=
  ⟨"api.ts", some "types.ts", some "calls", none, none, .standard⟩

/-- What the request unit can import then. -/
def breakImports : List Import := [⟨some "request", [], "calls"⟩, ⟨none, [breakName], "./types"⟩]

theorem requestImports_break :
    requestImports breakSettings [breakController] breakCatalog = breakImports := by
  have hrun : Search.run breakCatalog ⟨[breakName], []⟩ = [breakName] := by
    rw [Search.run]
    change Search.run breakCatalog ⟨[], [breakName]⟩ = [breakName]
    rw [Search.run]
    rfl
  have hused : usedDeclarations [breakController] breakCatalog = breakCatalog.declarations := by
    have hroots : signatureReferences [breakController] = [breakName] := rfl
    have hplaces : breakCatalog.places [breakName] = [0] := by
      rw [Catalog.places, List.reverse_singleton, hrun]
      exact List.mergeSort_singleton 0
    rw [usedDeclarations, hroots, Catalog.closure, hplaces]
    rfl
  have htypes : typesImport breakSettings [breakController] breakCatalog "types.ts" =
      ⟨none, [breakName], "./types"⟩ := by
    unfold typesImport
    rw [hused]
    decide +kernel
  rw [requestImports]
  exact congrArg (fun i => [(callTarget breakSettings).imported, i]) htypes

/-- A name that is imported for two blanks a level, since the call is another mention of it, and not
for four. -/
theorem emit_withIndent_lineBreak :
    let a := emit (breakSettings.withIndent 2) [breakController] breakCatalog
    let b := emit (breakSettings.withIndent 4) [breakController] breakCatalog
    keptImports (breakSettings.withIndent 2) [breakController] breakCatalog = breakImports ∧
      keptImports (breakSettings.withIndent 4) [breakController] breakCatalog =
        breakImports.take 1 ∧
      a.value.map (fun u => unindented u.contents) ≠
        b.value.map fun u => unindented u.contents := by
  have hbody (i : Nat) : requestBody (breakSettings.withIndent i) [breakController] breakCatalog =
      functionText (breakSettings.withIndent i) [breakController] := by
    rw [requestBody]
    exact if_pos rfl
  have htwo : keptImports (breakSettings.withIndent 2) [breakController] breakCatalog =
      breakImports := by
    rw [keptImports, requestImports_withIndent, requestImports_break, hbody]
    decide +kernel
  have hfour : keptImports (breakSettings.withIndent 4) [breakController] breakCatalog =
      breakImports.take 1 := by
    rw [keptImports, requestImports_withIndent, requestImports_break, hbody]
    decide +kernel
  intro a b
  refine ⟨htwo, hfour, fun heq => ?_⟩
  have hvalue (i : Nat) :
      (emit (breakSettings.withIndent i) [breakController] breakCatalog).value =
        artifacts (breakSettings.withIndent i) [breakController] breakCatalog := rfl
  rw [hvalue, hvalue, artifacts_eq, artifacts_eq, List.map_cons, List.map_cons, htwo, hfour,
    hbody, hbody] at heq
  have hhead := (List.cons.inj heq).1
  revert hhead
  decide +kernel

end Client

end ApiSurface
