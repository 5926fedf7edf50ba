import ApiSurface.Document.Emit
import ApiSurface.Proofs.Schema.Agreement

/-!
# Operations in catalogs that agree

* `Agrees.expand`: a query type stands for the same properties in catalogs that agree;
* **`Agrees.operation`**: a request has the same operation in catalogs that agree.
-/

namespace ApiSurface.Catalog.Agrees

open Document

variable {c c' : Catalog}

theorem expand (h : c.Agrees c') (fuel : ℕ) : expand c fuel = expand c' fuel := by
  induction fuel with
  | zero => rfl
  | succ fuel ih =>
    funext t
    cases t with
    | reference name arguments =>
      cases arguments with
      | nil => simp only [Document.expand, h name, h.flattenedProperties, ih]
      | cons a rest => rfl
    | intersection ms => simp only [Document.expand, ih]
    | _ => rfl

theorem schemaOf (h : c.Agrees c') (subject : String) (t : TypeExpr) :
    schemaOf c subject t = schemaOf c' subject t := by
  unfold Document.schemaOf
  rw [h.resolve]

theorem fieldParameters (h : c.Agrees c') (subject : String) (location : BindingSource)
    (bs : List FieldBinding) :
    fieldParameters c subject location bs = fieldParameters c' subject location bs := by
  induction bs with
  | nil => rfl
  | cons b bs ih =>
    rw [Document.fieldParameters, Document.fieldParameters, ih]
    unfold fieldParameter
    rw [h.schemaOf]

theorem propertyParameters (h : c.Agrees c') (subject : String) (ps : List Property) :
    propertyParameters c subject ps = propertyParameters c' subject ps := by
  induction ps with
  | nil => rfl
  | cons p ps ih => rw [Document.propertyParameters, Document.propertyParameters, ih, h.resolve]

theorem queryParameters (h : c.Agrees c') (subject : String) (payload : Option Payload) :
    queryParameters c subject payload = queryParameters c' subject payload := by
  match payload with
  | none => rfl
  | some (.fields bs) => exact h.fieldParameters subject .query bs
  | some (.whole q) =>
    unfold Document.queryParameters wholeQueryParameters
    dsimp only
    rw [h.expand, h.schemaOf]
    cases Document.expand c' (maxNesting + 1) q.type with
    | none => rfl
    | some ps => exact h.propertyParameters subject ps

theorem bodyProperties (h : c.Agrees c') (subject : String) (bs : List FieldBinding) :
    bodyProperties c subject bs = bodyProperties c' subject bs := by
  induction bs with
  | nil => rfl
  | cons b bs ih => rw [Document.bodyProperties, Document.bodyProperties, ih, h.schemaOf]

theorem requestBody (h : c.Agrees c') (subject : String) (payload : Option Payload) :
    requestBody c subject payload = requestBody c' subject payload := by
  match payload with
  | none => rfl
  | some (.whole p) => rw [Document.requestBody, Document.requestBody, h.schemaOf]
  | some (.fields bs) => rw [Document.requestBody, Document.requestBody, h.bodyProperties]

/-- **A request has the same operation in catalogs that agree.** -/
theorem operation (h : c.Agrees c') (controller : String) (r : Request) :
    operation c controller r = operation c' controller r := by
  unfold Document.operation
  dsimp only
  rw [h.fieldParameters, h.queryParameters, h.requestBody, h.resolve]

end ApiSurface.Catalog.Agrees
