import ApiSurface.Proofs.Catalog.Reach

/-!
# Catalogs that agree

What a catalog says about a declaration depends only on what stands under each name, and not on the
order of the declarations.

* `Catalog.Agrees`: two catalogs have the same declarations under the same names;
* `Agrees.spread`, `Agrees.ancestors`, `Agrees.flattenedProperties`: such catalogs lead to the same
  declarations and properties;
* **`agrees_build`**: exported declarations with distinct names, in any order, make catalogs that
  agree.
-/

namespace ApiSurface.Catalog

/-- Two catalogs have the same declarations under the same names. -/
def Agrees (c c' : Catalog) : Prop := ∀ n, c.get? n = c'.get? n

variable {c c' : Catalog}

namespace Agrees

theorem contains (h : c.Agrees c') : c.contains = c'.contains := by
  funext n
  rw [contains_eq_isSome_get?, contains_eq_isSome_get?, h n]

/-- Catalogs that agree have equally many declarations. -/
theorem rounds (h : c.Agrees c') : c.rounds = c'.rounds := by
  have hperm : c.names.Perm c'.names := by
    refine (List.perm_ext_iff_of_nodup c.distinct c'.distinct).mpr fun n => ?_
    rw [mem_names, mem_names, h.contains]
  have hlen := hperm.length_eq
  unfold Table.names at hlen
  rwa [List.length_map, List.length_map] at hlen

/-! ## Searches -/

theorem fresh (h : c.Agrees c') (names seen : List String) :
    c.fresh names seen = c'.fresh names seen := by
  induction names generalizing seen with
  | nil => rfl
  | cons n ns ih =>
    rw [Catalog.fresh, Catalog.fresh, h n, ih]
    cases c'.get? n with
    | none => rfl
    | some d => dsimp only; rw [ih]

theorem spread (h : c.Agrees c') (links : Declaration → List String) (fuel : ℕ)
    (names seen : List String) :
    c.spread links fuel names seen = c'.spread links fuel names seen := by
  induction fuel generalizing names seen with
  | zero => rfl
  | succ fuel ih =>
    rw [Catalog.spread, Catalog.spread, h.fresh]
    cases c'.fresh names seen with
    | nil => rfl
    | cons d ds => dsimp only; rw [ih]

theorem ancestors (h : c.Agrees c') (name : String) : c.ancestors name = c'.ancestors name := by
  cases hd : c'.get? name with
  | none => rw [ancestors_eq_nil hd, ancestors_eq_nil ((h name).trans hd)]
  | some d => rw [ancestors_eq hd, ancestors_eq ((h name).trans hd), h.rounds, h.spread]

/-! ## Properties -/

theorem ownProperties (h : c.Agrees c') (d : Declaration) :
    c.ownProperties d = c'.ownProperties d := by
  unfold Catalog.ownProperties inheritedNames
  rw [h.ancestors]

theorem flattenedProperties (h : c.Agrees c') (name : String) :
    c.flattenedProperties name = c'.flattenedProperties name := by
  unfold Catalog.flattenedProperties
  rw [h name, h.ancestors]

end Agrees

/-! ## Building -/

/-- **Exported declarations with distinct names make the same catalog in any order**, up to the
order of its declarations. -/
theorem agrees_build {es es' : List Entry} (h : es.Perm es')
    (hes : ((exported es).map Entry.name).Nodup) :
    (build es).value.Agrees (build es').value := by
  intro n
  have hperm : (exported es).reverse.Perm (exported es').reverse :=
    (List.reverse_perm _).trans ((h.filter _).trans (List.reverse_perm _).symm)
  rw [get?_build, get?_build, find?_perm hperm]
  intro x hx y hy hxn hyn
  exact List.inj_on_of_nodup_map hes (List.mem_reverse.mp hx) (List.mem_reverse.mp hy)
    ((of_decide_eq_true hxn).trans (of_decide_eq_true hyn).symm)

end ApiSurface.Catalog
