import ApiSurface.Catalog.Cycle
import Mathlib.Data.List.Nodup
import Mathlib.Data.List.Perm.Basic

/-!
# Look-up in catalogs

A name stands for at most one declaration of a catalog, and for the last exported one of those that
the catalog was built from.

* `find?_eq_some_iff_mem`, `find?_perm`: look-up among values of which at most one fits;
* `Table.distinct`, `Table.isSome_entry?`: names stand once, and the index finds those that stand;
* `Table.entry?_put`, `entry?_collect`: what is found after entries are put in;
* `Catalog.get?_eq_some_iff`, `eq_of_name_eq`, `contains_iff`: what is found under a name;
* **`Catalog.get?_build`**: what is found in a catalog built from entries.
-/

namespace ApiSurface

/-! ## Values of which at most one fits -/

section Unique

variable {α : Type} {p : α → Bool} {l l' : List α}

theorem find?_eq_some_iff_mem (hu : ∀ x ∈ l, ∀ y ∈ l, p x = true → p y = true → x = y) (x : α) :
    l.find? p = some x ↔ x ∈ l ∧ p x = true := by
  constructor
  · intro h
    exact ⟨List.mem_of_find?_eq_some h, List.find?_some h⟩
  · rintro ⟨hx, hp⟩
    obtain ⟨y, hy⟩ := Option.isSome_iff_exists.mp (List.find?_isSome.mpr ⟨x, hx, hp⟩)
    rw [hy, hu y (List.mem_of_find?_eq_some hy) x hx (List.find?_some hy) hp]

theorem find?_perm (h : l.Perm l')
    (hu : ∀ x ∈ l, ∀ y ∈ l, p x = true → p y = true → x = y) : l.find? p = l'.find? p := by
  have hu' : ∀ x ∈ l', ∀ y ∈ l', p x = true → p y = true → x = y := fun x hx y hy =>
    hu x (h.mem_iff.mpr hx) y (h.mem_iff.mpr hy)
  ext x
  rw [find?_eq_some_iff_mem hu, find?_eq_some_iff_mem hu', h.mem_iff]

end Unique

/-! ## Tables -/

namespace Table

variable {t : Table}

/-- No name stands twice: the index would have to find both places. -/
theorem distinct (t : Table) : t.names.Nodup := by
  refine List.nodup_iff_getElem?_ne_getElem?.mpr fun i j hij hj heq => ?_
  have hplace : ∀ k : ℕ, t.names[k]? = some t.names[j] → t.index.lookup t.names[j] = some k := by
    intro k hk
    rwa [t.agrees, ← List.getElem?_map]
  have hlast := hplace j (List.getElem?_eq_getElem hj)
  rw [hplace i (heq.trans (List.getElem?_eq_getElem hj))] at hlast
  exact Nat.ne_of_lt hij (Option.some.inj hlast)

theorem isSome_entry? (t : Table) (n : String) :
    ( t.entry? n).isSome = (t.index.lookup n).isSome := by
  unfold entry?
  cases hplace : t.index.lookup n with
  | none => rfl
  | some place =>
    rw [Option.bind_some, List.getElem?_eq_getElem (lt_length_of_lookup hplace)]
    rfl

/-- An entry is found under its name, and what was found under the others. -/
theorem entry?_put (t : Table) (e : Entry) (n : String) :
    Table.entry? (t.put e) n = if n = e.name then some e else t.entry? n := by
  cases hplace : t.index.lookup e.name with
  | none =>
    rw [put_of_none hplace]
    unfold entry?
    rw [List.lookup_cons]
    by_cases hn : n = e.name
    · rw [if_pos hn, beq_iff_eq.mpr hn]
      exact List.getElem?_concat_length
    · rw [if_neg hn, beq_eq_false_iff_ne.mpr hn]
      refine Option.bind_congr fun place hplace => ?_
      exact List.getElem?_append_left (lt_length_of_lookup hplace)
  | some old =>
    rw [put_of_some hplace]
    by_cases hn : n = e.name
    · rw [if_pos hn, hn]
      show (t.index.lookup e.name).bind (fun place => (t.entries.set old e)[place]?) = some e
      rw [hplace]
      exact List.getElem?_set_self (lt_length_of_lookup hplace)
    · rw [if_neg hn]
      refine Option.bind_congr fun place hother => List.getElem?_set_ne ?_
      rintro rfl
      exact hn (Option.some.inj (((t.agrees n old).mp hother).symm.trans
        ((t.agrees e.name old).mp hplace)))

end Table

/-- Those of some entries whose declarations are exported. -/
def Catalog.exported (es : List Entry) : List Entry := es.filter fun e => e.declaration.exported

theorem Table.entry?_collect (t : Table) (es : List Entry) (n : String) :
    Table.entry? (t.collect es).value n =
      ((Catalog.exported es).reverse.find? fun e => e.name = n).or ( t.entry? n) := by
  induction es generalizing t with
  | nil => rfl
  | cons e es ih =>
    rw [collect, Catalog.exported, List.filter_cons]
    split_ifs with h
    · rw [Noted.value_bind, ih, entry?_put, List.reverse_cons, List.find?_append, Option.or_assoc]
      congr 1
      by_cases hn : n = e.name
      · simp [hn]
      · simp [hn, Ne.symm hn]
    · exact ih t

namespace Catalog

variable {c : Catalog}

/-! ## What is found under a name -/

theorem get?_eq_some_iff {n : String} {d : Declaration} :
    c.get? n = some d ↔ d ∈ c.declarations ∧ d.name = n := by
  unfold get? declarations
  simp only [Option.map_eq_some_iff, Table.entry?_eq_some_iff, List.mem_map]
  constructor
  · rintro ⟨e, ⟨he, rfl⟩, rfl⟩
    exact ⟨⟨e, he, rfl⟩, rfl⟩
  · rintro ⟨⟨e, he, rfl⟩, rfl⟩
    exact ⟨e, ⟨he, rfl⟩, rfl⟩

theorem get?_name {d : Declaration} (hd : d ∈ c.declarations) : c.get? d.name = some d :=
  get?_eq_some_iff.mpr ⟨hd, rfl⟩

/-- Declarations of one name are the same. -/
theorem eq_of_name_eq {d e : Declaration} (hd : d ∈ c.declarations) (he : e ∈ c.declarations)
    (h : d.name = e.name) : d = e := by
  have := get?_name hd
  rw [h, get?_name he] at this
  exact (Option.some.inj this).symm

theorem contains_eq_isSome_get? (n : String) : c.contains n = (c.get? n).isSome := by
  unfold contains get?
  rw [Option.isSome_map, Table.isSome_entry?]

theorem contains_of_get? {n : String} {d : Declaration} (h : c.get? n = some d) :
    c.contains n = true := by
  rw [contains_eq_isSome_get?, h]
  rfl

theorem contains_iff {n : String} : c.contains n = true ↔ ∃ d ∈ c.declarations, d.name = n := by
  rw [contains_eq_isSome_get?, Option.isSome_iff_exists]
  exact exists_congr fun d => get?_eq_some_iff

theorem names_eq : c.names = c.declarations.map (·.name) := by
  unfold Table.names declarations
  rw [List.map_map]
  rfl

@[simp] theorem mem_names {n : String} : n ∈ c.names ↔ c.contains n = true := by
  rw [contains_iff, names_eq, List.mem_map]

/-- **In a catalog built from entries, a name stands for the last exported one that has it.** -/
theorem get?_build (es : List Entry) (n : String) :
    (build es).value.get? n =
      ((exported es).reverse.find? fun e => e.name = n).map (·.declaration) := by
  have hbuild : (build es).value = (Table.empty.collect es).value.link := rfl
  rw [get?, hbuild]
  refine congrArg (Option.map Entry.declaration) ?_
  exact ( Table.empty.entry?_collect es n).trans Option.or_none

end Catalog

end ApiSurface
