import ApiSurface.Proofs.Schema.Plain

/-!
# Unknown names in types

A name that a catalog does not have stands for anything. Resolving a type against the catalog is
therefore resolving it without one after `unknown` has been put in the place of each such name; only
the notes on these names are missing.

* `Noted.without`: a value without the notes of one kind, kept by going on;
* `TypeExpr.erase`: a type with `unknown` in the place of the names that a catalog does not have;
* **`resolve_erase`**: what is resolved, and what is noted, before and after erasing.
-/

namespace ApiSurface

/-! ## Notes of other kinds -/

namespace Noted

variable {α β : Type}

/-- A value with those of its notes that are not of the given kind. -/
def without (code : NoteCode) (m : Noted α) : Noted α :=
  ⟨m.value, m.notes.filter fun n => n.code ≠ code⟩

variable {code : NoteCode}

@[simp] theorem without_pure (a : α) : without code (Pure.pure a : Noted α) = Pure.pure a := rfl

@[simp] theorem without_bind (m : Noted α) (f : α → Noted β) :
    without code (m >>= f) = without code m >>= fun a => without code (f a) := by
  unfold without
  rw [notes_bind, List.filter_append]
  rfl

theorem without_single {a : α} {n : Note} (h : n.code ≠ code) :
    without code (⟨a, [n]⟩ : Noted α) = ⟨a, [n]⟩ := by
  simp [without, h]

theorem without_single_self (a : α) (n : Note) :
    without n.code (⟨a, [n]⟩ : Noted α) = Pure.pure a := by
  simp only [without, ne_eq, not_true_eq_false, decide_false, List.filter_cons, List.filter_nil,
    Bool.false_eq_true, if_false]
  rfl

end Noted

/-! ## Types without unknown names -/

namespace TypeExpr

mutual

/-- A type with `unknown` in the place of each name without arguments, other than `Date`, that the
catalog does not have. -/
def erase (c : Catalog) : TypeExpr → TypeExpr
  | reference name [] => if name = "Date" ∨ c.contains name then reference name [] else unknown
  | reference name (a :: rest) => reference name (a.erase c :: eraseAll c rest)
  | array e => array (e.erase c)
  | union ms => union (eraseAll c ms)
  | intersection ms => intersection (eraseAll c ms)
  | object ms => object (eraseProperties c ms)
  | t => t

/-- Each type without unknown names. -/
def eraseAll (c : Catalog) : List TypeExpr → List TypeExpr
  | [] => []
  | t :: ts => t.erase c :: eraseAll c ts

/-- Each property with its type without unknown names. -/
def eraseProperties (c : Catalog) : List Property → List Property
  | [] => []
  | ⟨name, type, optional, docs⟩ :: ps =>
    ⟨name, type.erase c, optional, docs⟩ :: eraseProperties c ps

end

theorem length_eraseAll (c : Catalog) (ts : List TypeExpr) :
    (eraseAll c ts).length = ts.length := by
  induction ts with
  | nil => rfl
  | cons t ts ih => rw [eraseAll, List.length_cons, List.length_cons, ih]

end TypeExpr

/-! ## Resolving before and after erasing -/

section Resolve

variable {c : Catalog} {subject : String}

open Noted

theorem resolveAll_erase {ts : List TypeExpr}
    (h : ∀ t ∈ ts, resolve none subject (t.erase c) =
      without .unresolvedReference (resolve (some c) subject t)) :
    resolveAll none subject (TypeExpr.eraseAll c ts) =
      without .unresolvedReference (resolveAll (some c) subject ts) := by
  induction ts with
  | nil => rw [TypeExpr.eraseAll, resolveAll, resolveAll, without_pure]
  | cons t ts ih =>
    rw [TypeExpr.eraseAll, resolveAll, resolveAll, h t List.mem_cons_self,
      ih fun u hu => h u (List.mem_cons_of_mem _ hu)]
    simp only [without_bind, without_pure]

/-- A name without arguments: it is known, or it is erased together with the note on it. -/
theorem resolve_erase_name (name : String) :
    resolve none subject ((TypeExpr.reference name []).erase c) =
      without .unresolvedReference (resolve (some c) subject (.reference name [])) := by
  rw [TypeExpr.erase, resolve]
  by_cases hdate : name = "Date"
  · rw [if_pos (Or.inl hdate), if_pos hdate, resolve, if_pos hdate, without_pure]
  · rw [if_neg hdate]
    unfold resolveName isKnown
    by_cases hknown : c.contains name = true
    · rw [if_pos (Or.inr hknown), if_pos (by simpa using hknown), resolve, if_neg hdate,
        without_pure]
      rfl
    · rw [if_neg (by simp [hdate, hknown]), if_neg (by simpa using hknown), resolve]
      exact (without_single_self _ (Note.unresolved subject name)).symm

theorem resolve_erase_run (t : TypeExpr) : resolve none subject (t.erase c) =
    without .unresolvedReference (resolve (some c) subject t) := by
  induction t with
  | keyword | literal | undefined | null | void | any | unknown =>
    simp only [TypeExpr.erase, resolve, without_pure]
  | object ms => simp only [TypeExpr.erase, resolve, without_pure]
  | typeParameter name =>
    simp only [TypeExpr.erase, resolve]
    exact (without_single (by simp [Note.typeParameter])).symm
  | array e ih =>
    rw [TypeExpr.erase, resolve, resolve, ih]
    simp only [without_bind, without_pure]
  | union ms ih =>
    rw [TypeExpr.erase, resolve, resolve, resolveAll_erase ih]
    simp only [without_bind, without_pure]
  | intersection ms ih =>
    rw [TypeExpr.erase, resolve, resolve, resolveAll_erase ih]
    simp only [without_bind, without_pure]
  | reference name arguments ih =>
    rcases arguments with _ | ⟨a, _ | ⟨b, rest⟩⟩
    · exact resolve_erase_name name
    · -- the three generic names are told apart before the catalog is asked
      rw [TypeExpr.erase, TypeExpr.eraseAll, resolve, resolve, ih a List.mem_cons_self]
      split_ifs
      · rfl
      · simp only [without_bind, without_pure]
      · exact (without_single (by simp [Note.genericArguments])).symm
    · rw [TypeExpr.erase, TypeExpr.eraseAll, resolve, resolve]
      · rw [without_single (by simp [Note.genericArguments])]
        simp only [List.length_cons, TypeExpr.length_eraseAll]
      all_goals simp

/-- **Resolving against a catalog is resolving without one after erasing unknown names**: a type has
the schema, or has none, as its erased form has without a catalog, and the notes are the same but
for those on unknown names. -/
theorem resolve_erase (c : Catalog) (subject : String) (t : TypeExpr) :
    (resolve (some c) subject t).value = (resolve none subject (t.erase c)).value ∧
      (resolve (some c) subject t).notes.filter (fun n => n.code ≠ .unresolvedReference) =
        (resolve none subject (t.erase c)).notes := by
  rw [resolve_erase_run]
  exact ⟨rfl, rfl⟩

end Resolve

end ApiSurface
