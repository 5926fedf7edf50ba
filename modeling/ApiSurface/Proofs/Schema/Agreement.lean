import ApiSurface.Proofs.Catalog.Agreement
import ApiSurface.Proofs.Schema.Plain

/-!
# Schemas in catalogs that agree

A type is resolved by asking which names are known, and a declaration also by what it inherits.
Catalogs that agree therefore give the same schemas and take the same notes.

* `resolve_congr`: a type has the same schema where the same names are known;
* **`Catalog.Agrees.synthesize`**: a declaration has the same schema in catalogs that agree.
-/

namespace ApiSurface

/-! ## Types -/

section Resolve

variable {catalog catalog' : Option Catalog}

theorem resolveAll_congr {subject : String} {ts : List TypeExpr}
    (h : ∀ t ∈ ts, resolve catalog subject t = resolve catalog' subject t) :
    resolveAll catalog subject ts = resolveAll catalog' subject ts := by
  induction ts with
  | nil => rw [resolveAll, resolveAll]
  | cons t ts ih =>
    rw [resolveAll, resolveAll, h t List.mem_cons_self,
      ih fun u hu => h u (List.mem_cons_of_mem _ hu)]

/-- **A type has the same schema where the same names are known.** -/
theorem resolve_congr (h : isKnown catalog = isKnown catalog') (subject : String) (t : TypeExpr) :
    resolve catalog subject t = resolve catalog' subject t := by
  induction t with
  | keyword k => rw [resolve, resolve]
  | literal v => rw [resolve, resolve]
  | undefined => rw [resolve, resolve]
  | null => rw [resolve, resolve]
  | void => rw [resolve, resolve]
  | any => rw [resolve, resolve]
  | unknown => rw [resolve, resolve]
  | typeParameter name => rw [resolve, resolve]
  | object ms => rw [resolve, resolve]
  | array e ih => rw [resolve, resolve, ih]
  | union ms ih => rw [resolve, resolve, resolveAll_congr ih]
  | intersection ms ih => rw [resolve, resolve, resolveAll_congr ih]
  | reference name arguments ih =>
    cases arguments with
    | nil =>
      rw [resolve, resolve]
      unfold resolveName
      rw [h]
    | cons a rest =>
      cases rest with
      | nil => rw [resolve, resolve, ih a (List.mem_singleton_self a)]
      | cons b rest => rw [resolve, resolve] <;> simp

end Resolve

/-! ## Declarations -/

namespace Catalog.Agrees

variable {c c' : Catalog}

theorem isKnown (h : c.Agrees c') : isKnown (some c) = isKnown (some c') := by
  funext n
  exact congrFun h.contains n

theorem resolve (h : c.Agrees c') (subject : String) :
    resolve (some c) subject = resolve (some c') subject :=
  funext fun t => resolve_congr h.isKnown subject t

theorem synthesizeProperties (h : c.Agrees c') (owner : String) (ps : List Property) :
    synthesizeProperties (some c) owner ps = synthesizeProperties (some c') owner ps := by
  induction ps with
  | nil => rfl
  | cons p ps ih =>
    rw [ApiSurface.synthesizeProperties, ApiSurface.synthesizeProperties, ih, h.resolve]

theorem synthesizeObject (h : c.Agrees c') (d : Declaration) :
    synthesizeObject (some c) d = synthesizeObject (some c') d := by
  unfold ApiSurface.synthesizeObject describedProperties
  dsimp only
  rw [h.ownProperties, h.synthesizeProperties, h.isKnown]

/-- **A declaration has the same schema in catalogs that agree.** -/
theorem synthesize (h : c.Agrees c') (d : Declaration) :
    synthesize (some c) d = synthesize (some c') d := by
  unfold ApiSurface.synthesize
  rw [h.synthesizeObject]
  simp only [h.resolve]

end Catalog.Agrees

end ApiSurface
