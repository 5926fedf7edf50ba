import ApiSurface.Note
import ApiSurface.Source.SourceUnit

/-!
# Catalogs

The exported declarations of a task, one for each name.

* `Entry`, `Table`: declarations with the files they come from, and the place of each by its name;
* `Table.entry?`, `names`: look-up by name, the names in order;
* `Table.put`: a later declaration takes the place of an earlier one of its name;
* `Table.collect`: all of a list of declarations, with a note for each that is replaced;
* `Catalog`, `Table.link`: a table with the graph of its supertype links;
* `Catalog.get?`, `contains`, `missingSupertypes`: look-up, and the links that lead out of it.
-/

namespace ApiSurface

/-- A declaration and the file it comes from. -/
structure Entry where
  declaration : Declaration
  source : String
deriving Repr

/-- The name of an entry. -/
def Entry.name (e : Entry) : String := e.declaration.name

/-- Declarations in the order of their first appearance, and the place of each by its name. -/
structure Table where
  entries : List Entry
  index : List (String × Nat)
  agrees : ∀ name place,
    index.lookup name = some place ↔ entries[place]?.map Entry.name = some name

namespace Table

/-- A table without declarations. -/
def empty : Table := ⟨[], [], by simp⟩

/-- The entry of a name. -/
def entry? (t : Table) (name : String) : Option Entry :=
  (t.index.lookup name).bind fun place => t.entries[place]?

/-- The name at a place. -/
def nameAt? (t : Table) (place : Nat) : Option String := t.entries[place]?.map Entry.name

theorem entry?_eq_some_iff {t : Table} {name : String} {e : Entry} :
    t.entry? name = some e ↔ e ∈ t.entries ∧ e.name = name := by
  unfold entry?
  rw [Option.bind_eq_some_iff]
  constructor
  · rintro ⟨place, hplace, he⟩
    rw [t.agrees, he] at hplace
    exact ⟨List.mem_of_getElem? he, Option.some.inj hplace⟩
  · rintro ⟨he, rfl⟩
    obtain ⟨place, hplace⟩ := List.mem_iff_getElem?.mp he
    exact ⟨place, (t.agrees _ _).mpr (by rw [hplace]; rfl), hplace⟩

theorem entry?_eq_none_iff {t : Table} {name : String} :
    t.entry? name = none ↔ name ∉ t.entries.map Entry.name := by
  rw [Option.eq_none_iff_forall_ne_some, List.mem_map]
  simp only [ne_eq, entry?_eq_some_iff, not_exists]

/-- The declared names in order. -/
def names (t : Table) : List String := t.entries.map Entry.name

/-- The number of declarations. -/
def size (t : Table) : Nat := t.entries.length

/-! ## Building -/

theorem lt_length_of_lookup {t : Table} {name : String} {place : Nat}
    (h : t.index.lookup name = some place) : place < t.entries.length := by
  obtain ⟨e, he, -⟩ := Option.map_eq_some_iff.mp ((t.agrees name place).mp h)
  exact (List.getElem?_eq_some_iff.mp he).1

/-- A new entry stands behind all others. -/
theorem agrees_append {t : Table} {e : Entry} (h : t.index.lookup e.name = none) (name : String)
    (place : Nat) : ((e.name, t.entries.length) :: t.index).lookup name = some place ↔
      (t.entries ++ [e])[place]?.map Entry.name = some name := by
  have hnew := t.agrees e.name place
  have hold := t.agrees name place
  rw [List.lookup_cons, List.getElem?_append, List.getElem?_singleton]
  grind

/-- An entry in the place of the one that has its name. -/
theorem agrees_set {t : Table} {e : Entry} {place : Nat}
    (h : t.index.lookup e.name = some place) (name : String) (i : Nat) :
    t.index.lookup name = some i ↔ (t.entries.set place e)[i]?.map Entry.name = some name := by
  rw [t.agrees, List.getElem?_set]
  by_cases hi : place = i
  · subst hi
    rw [if_pos rfl, if_pos (lt_length_of_lookup h), (t.agrees _ _).mp h]
    rfl
  · rw [if_neg hi]

/-- A table with one more entry, or with the entry in the place of the one that has its name. -/
def put (t : Table) (e : Entry) : Table :=
  match h : t.index.lookup e.name with
  | none => ⟨t.entries ++ [e], (e.name, t.entries.length) :: t.index, agrees_append h⟩
  | some place => ⟨t.entries.set place e, t.index, agrees_set h⟩

theorem put_of_none {t : Table} {e : Entry} (h : t.index.lookup e.name = none) :
    t.put e = ⟨t.entries ++ [e], (e.name, t.entries.length) :: t.index, agrees_append h⟩ := by
  unfold put
  split
  · rfl
  · next hplace =>
    rw [h] at hplace
    cases hplace

theorem put_of_some {t : Table} {e : Entry} {place : Nat}
    (h : t.index.lookup e.name = some place) :
    t.put e = ⟨t.entries.set place e, t.index, agrees_set h⟩ := by
  unfold put
  split
  · next hnone =>
    rw [h] at hnone
    cases hnone
  · next hplace =>
    rw [h] at hplace
    cases hplace
    rfl

/-- The note on a declaration that takes the place of another. -/
def replacement (t : Table) (e : Entry) : List Note :=
  match t.entry? e.name with
  | none => []
  | some old => [Note.duplicateDeclaration e.name e.source old.source]

/-- Put the exported declarations among some entries into a table. -/
def collect (t : Table) : List Entry → Noted Table
  | [] => pure t
  | e :: es => do
    if e.declaration.exported then
      Noted.noteAll (t.replacement e)
      collect (t.put e) es
    else collect t es

/-! ## Supertype links -/

/-- The links out of the entries, each from the place of the subtype to what is found under the name
of the supertype. -/
def edgesBy (es : List Entry) (find : String → Option Nat) : List (Nat × Nat) :=
  es.zipIdx.flatMap fun e =>
    e.1.declaration.supertypes.filterMap fun s => (find s).map fun place => (e.2, place)

/-- What the index finds is the first entry of the name. -/
theorem lookup_eq_findIdx? (t : Table) (name : String) :
    t.index.lookup name = t.entries.findIdx? fun e => e.name = name := by
  ext place
  rw [List.findIdx?_eq_some_iff_getElem]
  constructor
  · intro h
    have hlt := lt_length_of_lookup h
    have hname := (t.agrees name place).mp h
    rw [List.getElem?_eq_getElem hlt, Option.map_some, Option.some.injEq] at hname
    refine ⟨hlt, by simpa using hname, fun j hj hother => ?_⟩
    have hagain : t.index.lookup name = some j := by
      rw [t.agrees, List.getElem?_eq_getElem (Nat.lt_trans hj hlt)]
      exact congrArg some (of_decide_eq_true hother)
    rw [h] at hagain
    exact Nat.ne_of_gt hj (Option.some.inj hagain)
  · rintro ⟨hlt, hname, -⟩
    rw [t.agrees, List.getElem?_eq_getElem hlt]
    exact congrArg some (of_decide_eq_true hname)

end Table

/-- A table with the graph of its supertype links, by the places of subtype and supertype. -/
structure Catalog extends Table where
  edges : List (Nat × Nat)
  linked : edges = Table.edgesBy entries fun name => entries.findIdx? fun e => e.name = name

/-- The catalog of a table: each supertype that is declared is a link. -/
def Table.link (t : Table) : Catalog where
  toTable := t
  edges := Table.edgesBy t.entries fun name => t.index.lookup name
  linked := by simp only [t.lookup_eq_findIdx?]

namespace Catalog

/-- A catalog without declarations. -/
def empty : Catalog := Table.empty.link

/-- The declaration of a name. -/
def get? (c : Catalog) (name : String) : Option Declaration :=
  Option.map (·.declaration) <| c.entry? name

/-- Whether a name is declared. -/
def contains (c : Catalog) (name : String) : Bool := (c.index.lookup name).isSome

/-- The declarations in order. -/
def declarations (c : Catalog) : List Declaration := c.entries.map (·.declaration)

/-- The supertype links out of the declarations: name of the subtype, name of the supertype. -/
def links (c : Catalog) : List (String × String) :=
  c.declarations.flatMap fun d => d.supertypes.map fun s => (d.name, s)

/-- The notes on the links that lead out of the catalog. -/
def missingSupertypes (c : Catalog) : List Note :=
  (c.links.filter fun l => !c.contains l.2).map fun l => Note.unresolved l.1 l.2

end Catalog

/-- The declarations of source units, each with its file. -/
def entriesOf (units : List SourceUnit) : List Entry :=
  units.flatMap fun u => u.declarations.map fun d => ⟨d, u.path⟩

end ApiSurface
