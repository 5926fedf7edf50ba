import ApiSurface.Proofs.Toml.Statement
import Mathlib.Data.List.Nodup

/-!
# Statements that build a table

* `Leads`: a path to a table of a document that is being built, and what stands around the table;
* `Leads.step_assign`, `Leads.step_table`, `Leads.step_next`: what a statement does there;
* `Body`, `Adds`: statements that fill a table just opened, and ones that add entries to a table;
* `body_lines`, `Body.adds_table`, `adds_tables`: how they are put together.
-/

namespace ApiSurface.Toml

open Entries

/-! ## Tables on a path -/

section Members

variable {α : Type} {k : String} {a : α} {l : List (String × α)}

theorem lookup_eq_none_of_notMem (h : k ∉ l.map Prod.fst) : l.lookup k = none := by
  rw [List.lookup_eq_none_iff]
  exact fun p hp => bne_iff_ne.mpr fun heq => h (heq ▸ List.mem_map_of_mem hp)

theorem lookup_append_self (h : k ∉ l.map Prod.fst) : (l ++ [(k, a)]).lookup k = some a := by
  rw [List.lookup_append, lookup_eq_none_of_notMem h]
  simp

end Members

section Path

variable {k : String} {n m : Node} {t : Entries} {fill : Entries → Entries} {path : List String}

theorem replace_append_self (h : k ∉ t.map Prod.fst) :
    replace k m (t ++ [(k, n)]) = t ++ [(k, m)] := by
  have ht : t.map (fun e => if e.1 = k then (k, m) else e) = t.map id :=
    List.map_congr_left fun e he => if_neg (fun heq : e.1 = k => h (heq ▸ List.mem_map_of_mem he))
  rw [List.map_id] at ht
  simp [replace, ht]

/-- What is changed at the end of a path is told nothing about the tables on the way. -/
theorem within_const (change : Entries → Option Entries) (path : List String) (b : Bool)
    (t : Entries) :
    within false (fun _ => change) path b t = within false (fun _ => change) path false t := by
  cases path <;> rfl

theorem within_append (change : Bool → Entries → Option Entries) (path rest : List String)
    (b : Bool) (t : Entries) :
    within false change (path ++ rest) b t =
      within false (fun b => within false change rest b) path b t := by
  induction path generalizing b t with
  | nil => rfl
  | cons k path ih => simp only [List.cons_append, within, ih]

/-- The document around the table at a path: a change of the table is one of the document. -/
def Leads (path : List String) (fill : Entries → Entries) : Prop :=
  ∀ (change : Entries → Option Entries) (t : Entries),
    within false (fun _ => change) path false (fill t) = (change t).map fill

theorem leads_nil : Leads [] id := fun change t => by
  rw [Option.map_id]
  rfl

/-- The table under the last key of a table on a path. -/
theorem Leads.concat {node : Entries → Node} (h : Leads path fill)
    (hnode : ∀ (change : Entries → Option Entries) (u : Entries),
      within false (fun _ => change) [k] false (t ++ [(k, node u)]) =
        (change u).map fun u => t ++ [(k, node u)]) :
    Leads (path ++ [k]) fun u => fill (t ++ [(k, node u)]) := by
  intro change u
  have hconst : (fun b => within false (fun _ => change) [k] b) =
      fun _ => within false (fun _ => change) [k] false := by
    funext b t
    exact within_const change [k] b t
  rw [within_append, hconst, h, hnode, Option.map_map]
  rfl

theorem Leads.table (h : Leads path fill) (hk : k ∉ t.map Prod.fst) (form : Form) :
    Leads (path ++ [k]) fun u => fill (t ++ [(k, .table form u)]) :=
  h.concat fun change u => by
    simp only [within, lookup_append_self hk]
    cases change u <;> simp [replace_append_self hk]

theorem Leads.tables (h : Leads path fill) (hk : k ∉ t.map Prod.fst) (closed : List Entries) :
    Leads (path ++ [k]) fun u => fill (t ++ [(k, .tables closed u)]) :=
  h.concat fun change u => by
    simp only [within, lookup_append_self hk]
    cases change u <;> simp [replace_append_self hk]

end Path

/-! ## Steps -/

section Step

variable {k : String} {n : Node} {v : Value} {t last : Entries} {closed : List Entries}
  {fill : Entries → Entries} {path here : List String}

theorem add?_of_notMem (h : k ∉ t.map Prod.fst) : add? k n t = some (t ++ [(k, n)]) := by
  simp [add?, lookup_eq_none_of_notMem h]

theorem open?_of_notMem (h : k ∉ t.map Prod.fst) :
    open? k t = some (t ++ [(k, .table .header [])]) := by
  simp [open?, lookup_eq_none_of_notMem h]

theorem openNext?_of_notMem (h : k ∉ t.map Prod.fst) :
    openNext? k t = some (t ++ [(k, .tables [] [])]) := by
  simp [openNext?, lookup_eq_none_of_notMem h]

theorem openNext?_tables (h : k ∉ t.map Prod.fst) :
    openNext? k (t ++ [(k, .tables closed last)]) =
      some (t ++ [(k, .tables (closed ++ [last]) [])]) := by
  simp [openNext?, lookup_append_self h, replace_append_self h]

theorem Leads.step_assign (h : Leads path fill) :
    Draft.step ⟨fill t, path⟩ (.assign [] k v) =
      (add? k (.value v) t).map fun u => ⟨fill u, path⟩ := by
  have hadd : (fun t : Entries => t.assign? [] k (.value v)) = add? k (.value v) := rfl
  simp only [Draft.step, hadd, h (add? k (.value v)) t]
  cases add? k (.value v) t <;> rfl

theorem Leads.step_table (h : Leads path fill) :
    Draft.step ⟨fill t, here⟩ (.table path k) =
      (open? k t).map fun u => ⟨fill u, path ++ [k]⟩ := by
  simp only [Draft.step, h (open? k) t]
  cases open? k t <;> rfl

theorem Leads.step_next (h : Leads path fill) :
    Draft.step ⟨fill t, here⟩ (.next path k) =
      (openNext? k t).map fun u => ⟨fill u, path ++ [k]⟩ := by
  simp only [Draft.step, h (openNext? k) t]
  cases openNext? k t <;> rfl

end Step

/-! ## Statements that build -/

theorem sealEntries_append (t u : List (String × Node)) :
    sealEntries (t ++ u) = sealEntries t ++ sealEntries u := by
  induction t with
  | nil => rfl
  | cons e t ih => rw [List.cons_append, sealEntries, ih, sealEntries, List.cons_append]

theorem sealTables_append (ts us : List (List (String × Node))) :
    sealTables (ts ++ us) = sealTables ts ++ sealTables us := by
  induction ts with
  | nil => rfl
  | cons t ts ih => rw [List.cons_append, sealTables, ih, sealTables, List.cons_append]

theorem keys_sealEntries (t : List (String × Node)) :
    (sealEntries t).map Prod.fst = t.map Prod.fst := by
  induction t with
  | nil => rfl
  | cons e t ih => rw [sealEntries, List.map_cons, List.map_cons, ih]

/-- Statements that fill the table at a path which was opened by the statement in front of them. -/
def Body (path : List String) (ss : List Statement) (es : List (String × Value)) : Prop :=
  ∀ fill, Leads path fill → ∃ t here,
    ss.foldlM Draft.step ⟨fill [], path⟩ = some ⟨fill t, here⟩ ∧ sealEntries t = es

/-- Statements that add entries to the table at a path, whichever table is open before. -/
def Adds (path : List String) (ss : List Statement) (es : List (String × Value)) : Prop :=
  ∀ fill t here, Leads path fill → (∀ e ∈ es, e.1 ∉ t.map Prod.fst) → ∃ u there,
    ss.foldlM Draft.step ⟨fill t, here⟩ = some ⟨fill (t ++ u), there⟩ ∧ sealEntries u = es

/-- The lines of a table as statements. -/
def lineStatements (es : List (String × Value)) : List Statement :=
  es.map fun e => .assign [] e.1 e.2

section Build

variable {k : String} {path : List String} {fill : Entries → Entries} {t : Entries}
  {es fs : List (String × Value)} {ss ts : List Statement}

theorem foldlM_lineStatements (h : Leads path fill) (hk : ∀ e ∈ es, e.1 ∉ t.map Prod.fst)
    (hes : (es.map Prod.fst).Nodup) :
    (lineStatements es).foldlM Draft.step ⟨fill t, path⟩ =
      some ⟨fill (t ++ es.map fun e => (e.1, .value e.2)), path⟩ := by
  induction es generalizing t with
  | nil => simp [lineStatements]
  | cons e es ih =>
    obtain ⟨he, hk⟩ := List.forall_mem_cons.mp hk
    obtain ⟨hne, hes⟩ := List.nodup_cons.mp hes
    have hstep : Draft.step ⟨fill t, path⟩ (.assign [] e.1 e.2) =
        some ⟨fill (t ++ [(e.1, .value e.2)]), path⟩ := by
      rw [h.step_assign, add?_of_notMem he]
      rfl
    have hrest := ih (t := t ++ [(e.1, .value e.2)]) (fun f hf => by
      rw [List.map_append, List.mem_append, not_or]
      refine ⟨hk f hf, fun heq => hne ?_⟩
      rw [← List.mem_singleton.mp heq]
      exact List.mem_map_of_mem hf) hes
    rw [lineStatements, List.map_cons, List.foldlM_cons, hstep]
    simpa [lineStatements] using hrest

theorem sealEntries_values (es : List (String × Value)) :
    sealEntries (es.map fun e => (e.1, .value e.2)) = es := by
  induction es with
  | nil => rfl
  | cons e es ih => rw [List.map_cons, sealEntries, ih, Node.seal]

theorem adds_nil : Adds path [] [] := fun fill t here _ _ => ⟨[], here, by simp, rfl⟩

theorem Adds.append (h : Adds path ss es) (h' : Adds path ts fs)
    (hdisjoint : ∀ e ∈ fs, e.1 ∉ es.map Prod.fst) : Adds path (ss ++ ts) (es ++ fs) := by
  intro fill t here hleads hk
  obtain ⟨u, there, hu, hes⟩ := h fill t here hleads fun e he => hk e (List.mem_append_left _ he)
  have hfresh : ∀ e ∈ fs, e.1 ∉ (t ++ u).map Prod.fst := fun e he => by
    rw [List.map_append, List.mem_append, not_or, ← keys_sealEntries u, hes]
    exact ⟨hk e (List.mem_append_right _ he), hdisjoint e he⟩
  obtain ⟨v, last, hv, hfs⟩ := h' fill (t ++ u) there hleads hfresh
  refine ⟨u ++ v, last, ?_, by rw [sealEntries_append, hes, hfs]⟩
  rw [List.foldlM_append, hu, ← List.append_assoc]
  exact hv

/-- Lines, and behind them the tables of the table. -/
theorem body_lines (hes : ((es ++ fs).map Prod.fst).Nodup) (h : Adds path ss fs) :
    Body path (lineStatements es ++ ss) (es ++ fs) := by
  intro fill hleads
  rw [List.map_append, List.nodup_append] at hes
  obtain ⟨hes, -, hdisjoint⟩ := hes
  have hlines := foldlM_lineStatements (t := []) hleads (fun _ _ => List.not_mem_nil) hes
  have hkeys : (es.map fun e => (e.1, Node.value e.2)).map Prod.fst = es.map Prod.fst := by simp
  obtain ⟨u, there, hu, hfs⟩ := h fill (es.map fun e => (e.1, .value e.2)) path hleads
    fun e he => by
      rw [hkeys]
      exact fun hmem => hdisjoint e.1 hmem e.1 (List.mem_map_of_mem he) rfl
  refine ⟨(es.map fun e => (e.1, .value e.2)) ++ u, there, ?_, ?_⟩
  · rw [List.foldlM_append, hlines]
    exact hu
  · rw [sealEntries_append, sealEntries_values, hfs]

/-- A table under a key, behind its header. -/
theorem Body.adds_table (h : Body (path ++ [k]) ss es) :
    Adds path (.table path k :: ss) [(k, .table es)] := by
  intro fill t here hleads hk
  have hk := hk (k, .table es) List.mem_cons_self
  have hopen : Draft.step ⟨fill t, here⟩ (.table path k) =
      some ⟨fill (t ++ [(k, .table .header [])]), path ++ [k]⟩ := by
    rw [hleads.step_table, open?_of_notMem hk]
    rfl
  obtain ⟨u, there, hu, hes⟩ := h _ (hleads.table hk .header)
  refine ⟨[(k, .table .header u)], there, ?_, by rw [sealEntries, Node.seal, hes, sealEntries]⟩
  rw [List.foldlM_cons, hopen]
  exact hu

/-- A table of a list, behind the header that opens it. -/
theorem Body.foldlM_next (h : Body (path ++ [k]) ss es) (hleads : Leads path fill)
    {start : Entries} {closed : List Entries}
    (hstart : openNext? k start = some (t ++ [(k, .tables closed [])])) (hk : k ∉ t.map Prod.fst)
    (here : List String) :
    ∃ u there, (.next path k :: ss).foldlM Draft.step ⟨fill start, here⟩ =
      some ⟨fill (t ++ [(k, .tables closed u)]), there⟩ ∧ sealEntries u = es := by
  have hopen : Draft.step ⟨fill start, here⟩ (.next path k) =
      some ⟨fill (t ++ [(k, .tables closed [])]), path ++ [k]⟩ := by
    rw [hleads.step_next, hstart]
    rfl
  obtain ⟨u, there, hu, hes⟩ := h _ (hleads.tables hk closed)
  refine ⟨u, there, ?_, hes⟩
  rw [List.foldlM_cons, hopen]
  exact hu

theorem foldlM_tables {i : List Statement × List (String × Value)}
    {items : List (List Statement × List (String × Value))}
    (h : ∀ j ∈ i :: items, Body (path ++ [k]) j.1 j.2) (hleads : Leads path fill)
    {start : Entries} {closed : List Entries}
    (hstart : openNext? k start = some (t ++ [(k, .tables closed [])])) (hk : k ∉ t.map Prod.fst)
    (here : List String) :
    ∃ closed' last there,
      ((i :: items).flatMap fun j => .next path k :: j.1).foldlM Draft.step ⟨fill start, here⟩ =
        some ⟨fill (t ++ [(k, .tables closed' last)]), there⟩ ∧
      (Node.tables closed' last).seal =
        .list (sealTables closed ++ (i :: items).map fun j => .table j.2) := by
  induction items generalizing i start closed here with
  | nil =>
    obtain ⟨u, there, hu, hes⟩ :=
      (h i List.mem_cons_self).foldlM_next hleads hstart hk here
    exact ⟨closed, u, there, by simpa using hu, by simp [Node.seal, hes]⟩
  | cons j items ih =>
    obtain ⟨hi, hitems⟩ := List.forall_mem_cons.mp h
    obtain ⟨u, there, hu, hes⟩ := hi.foldlM_next hleads hstart hk here
    obtain ⟨closed', last, end', hrest, hseal⟩ := ih hitems (openNext?_tables hk) there
    refine ⟨closed', last, end', ?_, ?_⟩
    · rw [List.flatMap_cons, List.foldlM_append, hu]
      exact hrest
    · rw [hseal, sealTables_append]
      simp [sealTables, hes]

/-- A list of tables under a key. -/
theorem adds_tables {i : List Statement × List (String × Value)}
    {items : List (List Statement × List (String × Value))}
    (h : ∀ j ∈ i :: items, Body (path ++ [k]) j.1 j.2) :
    Adds path ((i :: items).flatMap fun j => .next path k :: j.1)
      [(k, .list ((i :: items).map fun j => .table j.2))] := by
  intro fill t here hleads hk
  have hk := hk _ List.mem_cons_self
  obtain ⟨closed, last, there, hrun, hseal⟩ :=
    foldlM_tables h hleads (openNext?_of_notMem hk) hk here
  exact ⟨[(k, .tables closed last)], there, hrun, by rw [sealEntries, hseal]; rfl⟩

end Build

end ApiSurface.Toml
