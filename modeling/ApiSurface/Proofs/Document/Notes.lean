import ApiSurface.Document.Emit
import ApiSurface.Proofs.Schema.Notes

/-!
# Kinds of notes on documents

Notes on the operation of a request are about its types or about a query that does not expand; notes
on components are those on declarations. So only the storing of routes reports routes taken over.

* `notes_wholeQueryParameters`: the notes on a parameter that supplies the whole query;
* **`only_operation`**, **`only_addSchemas`**: what notes on operations and components are about.
-/

namespace ApiSurface.Document

open Noted

variable (c : Catalog) (subject : String)

/-- What notes on operations are about. -/
def operationCodes : List NoteCode := .unexpandableQuery :: typeCodes

theorem only_operationCodes {α : Type} {m : Noted α} (h : Only typeCodes m) :
    Only operationCodes m :=
  h.mono fun _ hk => List.mem_cons_of_mem _ hk

theorem only_schemaOf (t : TypeExpr) : Only typeCodes (schemaOf c subject t) :=
  only_bind (only_resolve (some c) subject t) (only_pure _)

theorem only_fieldParameters (location : BindingSource) (bs : List FieldBinding) :
    Only typeCodes (fieldParameters c subject location bs) := by
  induction bs with
  | nil => exact only_pure _
  | cons b bs ih =>
    rw [fieldParameters]
    refine only_bind ?_ (only_bind ih (only_pure _))
    exact only_bind (only_schemaOf c subject _) (only_pure _)

theorem only_propertyParameters (ps : List Property) :
    Only typeCodes (propertyParameters c subject ps) := by
  induction ps with
  | nil => exact only_pure _
  | cons p ps ih =>
    rw [propertyParameters]
    exact only_bind (only_resolve (some c) subject _) (only_bind ih (only_pure _))

/-- **A parameter that supplies the whole query has one note if its type does not expand**, and
notes on types. -/
theorem notes_wholeQueryParameters (p : BoundParameter) :
    ∃ rest : Noted (List Parameter), Only typeCodes rest ∧
      (wholeQueryParameters c subject p).notes =
        (if (expand c (maxNesting + 1) p.type).isSome then []
          else [Note.unexpandableQuery subject p.type.text p.name]) ++ rest.notes := by
  unfold wholeQueryParameters
  cases expand c (maxNesting + 1) p.type with
  | some ps => exact ⟨_, only_propertyParameters c subject ps, rfl⟩
  | none =>
    have hrest : Only typeCodes (do
        let schema ← schemaOf c subject p.type
        return [(⟨p.name, .query, !p.optional, schema, none⟩ : Parameter)]) :=
      only_bind (only_schemaOf c subject p.type) (only_pure _)
    exact ⟨_, hrest, rfl⟩

theorem only_wholeQueryParameters (p : BoundParameter) :
    Only operationCodes (wholeQueryParameters c subject p) := by
  obtain ⟨rest, hrest, hnotes⟩ := notes_wholeQueryParameters c subject p
  intro n hn
  rw [hnotes, List.mem_append] at hn
  rcases hn with hn | hn
  · split_ifs at hn
    · cases hn
    · rw [List.mem_singleton.mp hn]
      exact List.mem_cons_self
  · exact only_operationCodes hrest n hn

theorem only_queryParameters (payload : Option Payload) :
    Only operationCodes (queryParameters c subject payload) := by
  match payload with
  | none => exact only_pure _
  | some (.whole p) => exact only_wholeQueryParameters c subject p
  | some (.fields bs) => exact only_operationCodes (only_fieldParameters c subject .query bs)

theorem only_bodyProperties (bs : List FieldBinding) :
    Only typeCodes (bodyProperties c subject bs) := by
  induction bs with
  | nil => exact only_pure _
  | cons b bs ih =>
    rw [bodyProperties]
    exact only_bind (only_schemaOf c subject _) (only_bind ih (only_pure _))

theorem only_requestBody (payload : Option Payload) :
    Only typeCodes (requestBody c subject payload) := by
  match payload with
  | none => exact only_pure _
  | some (.whole p) => exact only_bind (only_schemaOf c subject _) (only_pure _)
  | some (.fields bs) => exact only_bind (only_bodyProperties c subject bs) (only_pure _)

/-- **Notes on an operation are about its types or about its query.** -/
theorem only_operation (controller : String) (r : Request) :
    Only operationCodes (operation c controller r) := by
  unfold operation
  refine only_bind (only_operationCodes (only_fieldParameters c _ _ _)) ?_
  refine only_bind (only_queryParameters c _ _) ?_
  refine only_bind (only_operationCodes (only_requestBody c _ _)) ?_
  exact only_bind (only_operationCodes (only_resolve (some c) _ _)) (only_pure _)

/-- **Notes on components are those on declarations.** -/
theorem only_addSchemas (schemas : Dict Schema) (ds : List Declaration) :
    Only declarationCodes (addSchemas c schemas ds) := by
  induction ds generalizing schemas with
  | nil => exact only_pure _
  | cons d ds ih =>
    rw [addSchemas]
    exact only_bind (only_synthesize (some c) d) (ih _)

end ApiSurface.Document
