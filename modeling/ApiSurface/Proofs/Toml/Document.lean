import ApiSurface.Proofs.Toml.Build

/-!
# Written documents are read back

* `Tidy`: entries whose lines come before their tables;
* `Tidy.restored`: the text of a tidy table is statements that fill it;
* **`read?_write`**: a tidy document is read back as it was written;
* `Keys`, `Lines`: a way to show that entries are tidy.
-/

namespace ApiSurface.Toml

/-! ## Tidy documents -/

/-- Entries that a document keeps, with so many levels of tables: lines first, then tables and lists
of tables, which have lines of their own unless they are empty. -/
def Tidy : (levels : Nat) → List (String × Value) → Prop
  | 0, _ => False
  | levels + 1, es => (es.map Prod.fst).Nodup ∧ (∀ e ∈ es, Bare e.1) ∧
    ∃ ls ts, es = ls ++ ts ∧ (ls = [] → ts = []) ∧ (∀ e ∈ ls, Inline e.2) ∧
      ∀ e ∈ ts, (∃ us, e.2 = .table us ∧ Tidy levels us) ∨
        ∃ us uss, e.2 = .list ((us :: uss).map .table) ∧ ∀ vs ∈ us :: uss, Tidy levels vs

/-- The sections of a text, each behind a blank line. -/
def spaced (texts : List String) : List Char := texts.flatMap fun s => '\n' :: s.toList

/-- The text of a table's lines and the one of its sections are statements that fill it. -/
def Restored (path : List String) (es : List (String × Value)) : Prop :=
  ∃ ls ss, Laid ((lineTexts es).flatMap String.toList) ls ∧
    Laid (spaced (entrySections path es)) ss ∧ Body path (ls ++ ss) es

/-- The text of the sections under a key are statements that add it. -/
def RestoredUnder (path : List String) (k : String) (v : Value) : Prop :=
  ∃ ss, Laid (spaced (sections (path ++ [k]) v)) ss ∧ Adds path ss [(k, v)]

section Tidy

variable {k : String} {v : Value} {path : List String} {es fs : List (String × Value)}

theorem isLine_of_inline (h : Inline v) : isLine v = true := by
  cases h with
  | scalar h => cases h <;> rfl
  | @list vs h =>
    cases vs with
    | nil => rfl
    | cons v vs => cases h v List.mem_cons_self <;> rfl

theorem sections_of_inline (h : Inline v) : sections path v = [] := by
  cases h with
  | scalar h => cases h <;> rfl
  | @list vs h =>
    cases vs with
    | nil => rfl
    | cons v vs => cases h v List.mem_cons_self <;> rfl

theorem spaced_append (l m : List String) : spaced (l ++ m) = spaced l ++ spaced m :=
  List.flatMap_append

theorem entrySections_append (es fs : List (String × Value)) :
    entrySections path (es ++ fs) = entrySections path es ++ entrySections path fs := by
  induction es with
  | nil => rfl
  | cons e es ih => rw [List.cons_append, entrySections, ih, entrySections, List.append_assoc]

theorem entrySections_of_inline (h : ∀ e ∈ es, Inline e.2) : entrySections path es = [] := by
  induction es with
  | nil => rfl
  | cons e es ih =>
    obtain ⟨he, hes⟩ := List.forall_mem_cons.mp h
    rw [entrySections, sections_of_inline he, ih hes, List.append_nil]

/-- Where only the first entries are lines, they are written below the header. -/
theorem lineTexts_append (hes : ∀ e ∈ es, Inline e.2) (hfs : ∀ e ∈ fs, isLine e.2 = false) :
    lineTexts (es ++ fs) = es.map fun e => e.1 ++ " = " ++ valueText e.2 ++ "\n" := by
  have hlines : (es ++ fs).filter (fun e => isLine e.2) = es := by
    rw [List.filter_append, List.filter_eq_self.mpr fun e he => isLine_of_inline (hes e he),
      List.filter_eq_nil_iff.mpr fun e he => by simp [hfs e he], List.append_nil]
  rw [lineTexts, hlines]

theorem laid_lineTexts (hbare : ∀ e ∈ es, Bare e.1) (hes : ∀ e ∈ es, Inline e.2)
    (hfs : ∀ e ∈ fs, isLine e.2 = false) :
    Laid ((lineTexts (es ++ fs)).flatMap String.toList) (lineStatements es) := by
  rw [lineTexts_append hes hfs, List.flatMap_map, lineStatements, List.map_eq_flatMap]
  refine Laid.flatMap fun e he => ?_
  have hplain : (Statement.assign [] e.1 e.2).Plain :=
    .assign ⟨by simpa using hbare e he, by decide⟩ (hes e he)
  have htext : (e.1 ++ " = " ++ valueText e.2 ++ "\n").toList =
      (Statement.assign [] e.1 e.2).text ++ '\n' :: [] := by
    simp [Statement.text, toList_pathText_singleton]
  rw [htext]
  exact Laid.nil.line hplain

theorem adds_of_forall (hes : (es.map Prod.fst).Nodup)
    (h : ∀ e ∈ es, RestoredUnder path e.1 e.2) :
    ∃ ss, Laid (spaced (entrySections path es)) ss ∧ Adds path ss es := by
  induction es with
  | nil => exact ⟨[], .nil, adds_nil⟩
  | cons e es ih =>
    obtain ⟨hne, hes⟩ := List.nodup_cons.mp hes
    obtain ⟨he, h⟩ := List.forall_mem_cons.mp h
    obtain ⟨ss, hss, hadds⟩ := he
    obtain ⟨ts, hts, hrest⟩ := ih hes h
    refine ⟨ss ++ ts, ?_, hadds.append hrest fun f hf heq => hne ?_⟩
    · rw [entrySections, spaced_append]
      exact hss.append hts
    · rw [← List.mem_singleton.mp heq]
      exact List.mem_map_of_mem hf

theorem restored_append (hkeys : ((es ++ fs).map Prod.fst).Nodup) (hbare : ∀ e ∈ es ++ fs, Bare e.1)
    (hes : ∀ e ∈ es, Inline e.2) (hfs : ∀ e ∈ fs, isLine e.2 = false)
    (h : ∀ e ∈ fs, RestoredUnder path e.1 e.2) : Restored path (es ++ fs) := by
  have hnodup : (fs.map Prod.fst).Nodup := by
    rw [List.map_append, List.nodup_append] at hkeys
    exact hkeys.2.1
  obtain ⟨ss, hss, hadds⟩ := adds_of_forall hnodup h
  refine ⟨lineStatements es, ss, ?_, ?_, body_lines hkeys hadds⟩
  · exact laid_lineTexts (fun e he => hbare e (List.mem_append_left _ he)) hes hfs
  · rw [entrySections_append, entrySections_of_inline hes]
    exact hss

theorem Restored.under_table (h : Restored (path ++ [k]) es) (hk : Reachable path k)
    (hne : lineTexts es = [] → es = []) : RestoredUnder path k (.table es) := by
  obtain ⟨ls, ss, hls, hss, hbody⟩ := h
  refine ⟨.table path k :: (ls ++ ss), ?_, hbody.adds_table⟩
  have hsection : tableSection (path ++ [k]) es =
      [sectionText ("[" ++ pathText (path ++ [k]) ++ "]") (lineTexts es)] :=
    if_neg fun ⟨hlines, hes⟩ => by simp [hne (List.isEmpty_iff.mp hlines)] at hes
  have htext : spaced (sections (path ++ [k]) (.table es)) =
      '\n' :: ((Statement.table path k).text ++ '\n' ::
        ((lineTexts es).flatMap String.toList ++ spaced (entrySections (path ++ [k]) es))) := by
    rw [sections, hsection]
    simp [spaced, sectionText, Statement.text, String.toList_join]
  rw [htext]
  exact ((hls.append hss).line (.table hk)).gap

theorem restored_items {uss : List (List (String × Value))}
    (h : ∀ us ∈ uss, Restored (path ++ [k]) us) (hk : Reachable path k) :
    ∃ items : List (List Statement × List (String × Value)), items.map Prod.snd = uss ∧
      (∀ j ∈ items, Body (path ++ [k]) j.1 j.2) ∧
      Laid (spaced (itemSections (path ++ [k]) (uss.map .table)))
        (items.flatMap fun j => .next path k :: j.1) := by
  induction uss with
  | nil => exact ⟨[], rfl, nofun, .nil⟩
  | cons us uss ih =>
    obtain ⟨hus, h⟩ := List.forall_mem_cons.mp h
    obtain ⟨ls, ss, hls, hss, hbody⟩ := hus
    obtain ⟨items, hitems, hbodies, hlaid⟩ := ih h
    refine ⟨(ls ++ ss, us) :: items, by rw [List.map_cons, hitems],
      List.forall_mem_cons.mpr ⟨hbody, hbodies⟩, ?_⟩
    have htext : spaced (itemSections (path ++ [k]) ((us :: uss).map .table)) =
        '\n' :: ((Statement.next path k).text ++
          '\n' :: (((lineTexts us).flatMap String.toList ++
            spaced (entrySections (path ++ [k]) us)) ++
              spaced (itemSections (path ++ [k]) (uss.map .table)))) := by
      rw [List.map_cons, itemSections]
      simp [spaced, itemSection, sectionText, Statement.text, String.toList_join]
    rw [htext]
    exact (((hls.append hss).append hlaid).line (.next hk)).gap

theorem restoredUnder_list {us : List (String × Value)} {uss : List (List (String × Value))}
    (h : ∀ vs ∈ us :: uss, Restored (path ++ [k]) vs) (hk : Reachable path k) :
    RestoredUnder path k (.list ((us :: uss).map .table)) := by
  obtain ⟨items, hitems, hbodies, hlaid⟩ := restored_items h hk
  cases items with
  | nil => exact absurd hitems (List.cons_ne_nil _ _).symm
  | cons i items =>
    have htables : (us :: uss).map Value.table = (i :: items).map fun j => .table j.2 := by
      rw [← hitems, List.map_map]
      rfl
    refine ⟨_, ?_, htables ▸ adds_tables hbodies⟩
    have hall : ((us :: uss).map Value.table).all isTable = true := by simp [isTable]
    rwa [sections, if_pos hall]

theorem isLine_of_tables {levels : Nat}
    (h : (∃ us, v = .table us ∧ Tidy levels us) ∨
      ∃ us uss, v = .list ((us :: uss).map .table) ∧ ∀ vs ∈ us :: uss, Tidy levels vs) :
    isLine v = false := by
  rcases h with ⟨us, rfl, -⟩ | ⟨us, uss, rfl, -⟩
  · rfl
  · simp [isLine, isTable]

theorem Tidy.eq_nil_of_lineTexts {levels : Nat} (h : Tidy levels es) (hlines : lineTexts es = []) :
    es = [] := by
  cases levels with
  | zero => exact h.elim
  | succ levels =>
    obtain ⟨-, -, ls, ts, rfl, hne, hls, hts⟩ := h
    rw [lineTexts_append hls fun e he => isLine_of_tables (hts e he), List.map_eq_nil_iff] at hlines
    rw [hlines, hne hlines]
    rfl

theorem Tidy.restored {levels : Nat} (h : Tidy levels es) (hbare : ∀ l ∈ path, Bare l)
    (hlevels : path.length + levels ≤ depthLimit) : Restored path es := by
  -- the levels that are left count down as the path grows
  induction levels generalizing path es with
  | zero => exact h.elim
  | succ levels ih =>
    obtain ⟨hkeys, hkeysBare, ls, ts, rfl, -, hls, hts⟩ := h
    refine restored_append hkeys hkeysBare hls (fun e he => isLine_of_tables (hts e he))
      fun e he => ?_
    have hk : Bare e.1 := hkeysBare e (List.mem_append_right _ he)
    have hpath : ∀ l ∈ path ++ [e.1], Bare l := by
      simpa [or_imp, forall_and] using ⟨hbare, hk⟩
    have hreach : Reachable path e.1 := ⟨hpath, by omega⟩
    have hbelow {us : List (String × Value)} (hus : Tidy levels us) : Restored (path ++ [e.1]) us :=
      ih hus hpath (by rw [List.length_append, List.length_singleton]; omega)
    obtain ⟨k, v⟩ := e
    rcases hts _ he with ⟨us, rfl, hus⟩ | ⟨us, uss, rfl, hus⟩
    · exact (hbelow hus).under_table hreach hus.eq_nil_of_lineTexts
    · exact restoredUnder_list (fun vs hvs => hbelow (hus vs hvs)) hreach

/-- Lines on top, and behind them the sections. -/
theorem toList_write (h : lineTexts es = [] → es = []) :
    (write es).toList = (lineTexts es).flatMap String.toList ++ spaced (entrySections [] es) := by
  by_cases hlines : lineTexts es = []
  · rw [h hlines]
    rfl
  · have hjoin (s : String) (l : List String) :
        ("\n".intercalate (s :: l)).toList = s.toList ++ spaced l := by
      induction l generalizing s with
      | nil => simp [spaced]
      | cons t l ih => simp [ih, spaced]
    have htop : (lineTexts es).isEmpty = false := by simpa using hlines
    rw [write, htop]
    simp [hjoin, String.toList_join]

end Tidy

/-- **A tidy document is read back as it was written.** -/
theorem read?_write {levels : Nat} {es : List (String × Value)} (h : Tidy levels es)
    (hlevels : levels ≤ depthLimit) : read? (write es) = some es := by
  have hrestored : Restored [] es := h.restored nofun (by simpa using hlevels)
  obtain ⟨ls, ss, hls, hss, hbody⟩ := hrestored
  obtain ⟨t, here, ht, hes⟩ := hbody id leads_nil
  have hlaid : Laid (write es).toList (ls ++ ss) := by
    rw [toList_write h.eq_nil_of_lineTexts]
    exact hls.append hss
  have hread := hlaid.statements (Nat.lt_succ_of_le hlaid.length_le)
  simp only [id_eq] at ht
  simp [read?, hlaid.withoutMark, hread, ht, hes]

/-! ## Lines of a table -/

/-- Keys that may stand in one table. -/
def Keys (names : List String) : Prop := names.Nodup ∧ ∀ n ∈ names, Bare n

instance (names : List String) : Decidable (Keys names) := inferInstanceAs (Decidable (_ ∧ _))

/-- Lines whose keys are some of a list of names, in its order. -/
structure Lines (names : List String) (es : List (String × Value)) : Prop where
  keys : (es.map Prod.fst).Sublist names
  inline : ∀ e ∈ es, Inline e.2

section Lines

variable {names more : List String} {es fs : List (String × Value)} {levels : Nat}

theorem Lines.nil : Lines [] [] := ⟨List.Sublist.refl _, nofun⟩

theorem Lines.cons {k : String} {v : Value} (hv : Inline v) (h : Lines names es) :
    Lines (k :: names) ((k, v) :: es) :=
  ⟨h.keys.cons_cons k, List.forall_mem_cons.mpr ⟨hv, h.inline⟩⟩

theorem Lines.append (h : Lines names es) (h' : Lines more fs) : Lines (names ++ more) (es ++ fs) :=
  ⟨by rw [List.map_append]; exact h.keys.append h'.keys,
    List.forall_mem_append.mpr ⟨h.inline, h'.inline⟩⟩

theorem Lines.keys_sublist (h : Lines names es) (fs : List (String × Value)) :
    ((es ++ fs).map Prod.fst).Sublist (names ++ fs.map Prod.fst) := by
  rw [List.map_append]
  exact h.keys.append (List.Sublist.refl _)

theorem Lines.tidy_append (h : Lines names es) (hne : es ≠ []) (fs : List (String × Value))
    (hkeys : Keys (names ++ fs.map Prod.fst))
    (hfs : ∀ e ∈ fs, (∃ us, e.2 = .table us ∧ Tidy levels us) ∨
      ∃ us uss, e.2 = .list ((us :: uss).map .table) ∧ ∀ vs ∈ us :: uss, Tidy levels vs) :
    Tidy (levels + 1) (es ++ fs) := by
  have hsub := h.keys_sublist fs
  exact ⟨hsub.nodup hkeys.1, fun e he => hkeys.2 e.1 (hsub.subset (List.mem_map_of_mem he)), es, fs,
    rfl, fun h => absurd h hne, h.inline, hfs⟩

theorem Lines.tidy (h : Lines names es) (hne : es ≠ []) (hkeys : Keys names) :
    Tidy (levels + 1) es := by
  rw [← List.append_nil es]
  exact h.tidy_append hne [] (by rwa [List.map_nil, List.append_nil]) nofun

end Lines

end ApiSurface.Toml
