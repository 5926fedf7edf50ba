import ApiSurface.Proofs.Dict
import ApiSurface.Proofs.Json.Parts
import ApiSurface.Proofs.Schema.Plain
import ApiSurface.Source.Codec

/-!
# Type expressions as JSON

* `fit_toJson`: nothing in a written type is unfit;
* **`readType_toJson`**: a written type is read as itself, in memory or outside of it.
-/

namespace ApiSurface

open ApiSurface.Json ApiSurface.Dict

theorem Literal.ofJson?_toJson (v : Literal) : Literal.ofJson? v.toJson = some v := by
  cases v <;> rfl

theorem Literal.fit_toJson (v : Literal) : v.toJson.fit = true := by
  cases v <;> rfl

theorem Keyword.ofJson?_text (k : Keyword) : Keyword.ofJson? (.text k.text) = some k := by
  cases k <;> rfl

/-! ## Members that may be missing -/

@[simp] theorem docsMember_none : docsMember none = [] := rfl

@[simp] theorem docsMember_some (s : String) : docsMember (some s) = [("docs", .text s)] := rfl

namespace TypeExpr

theorem typesToJson_eq (ts : List TypeExpr) : typesToJson ts = ts.map toJson := by
  induction ts with
  | nil => rfl
  | cons t ts ih => rw [typesToJson, ih, List.map_cons]

/-! ## Fitness -/

theorem fitItems_propertiesToJson {ps : List Property} (h : ∀ p ∈ ps, p.type.toJson.fit = true) :
    fitItems (propertiesToJson ps) = true := by
  induction ps with
  | nil => rfl
  | cons p ps ih =>
    have hp := h p List.mem_cons_self
    have hps := ih fun q hq => h q (List.mem_cons_of_mem p hq)
    obtain ⟨name, type, optional, docs⟩ := p
    cases docs <;> simp [propertiesToJson, fitItems, fit, fitMembers, hp, hps]

theorem fit_toJson (t : TypeExpr) : t.toJson.fit = true := by
  induction t with
  | literal v => simp [toJson, fit, fitMembers, Literal.fit_toJson]
  | array e ih => simp [toJson, fit, fitMembers, ih]
  | union ms ih | intersection ms ih =>
    simpa [toJson, fit, fitMembers, typesToJson_eq, fitItems_iff] using ih
  | reference name arguments ih =>
    have harguments : fitItems (typesToJson arguments) = true := by
      simpa [typesToJson_eq, fitItems_iff] using ih
    cases arguments <;> simp [toJson, fit, fitMembers, harguments]
  | object ms ih => simp [toJson, fit, fitMembers, fitItems_propertiesToJson ih]
  | _ => simp [toJson, fit, fitMembers]

/-! ## Reading what was written -/

theorem readTypes_typesToJson {ts : List TypeExpr}
    (h : ∀ t ∈ ts, readType true t.toJson = some t) : readTypes (typesToJson ts) = some ts := by
  induction ts with
  | nil => rfl
  | cons t ts ih =>
    have ht := h t List.mem_cons_self
    have hts := ih fun u hu => h u (List.mem_cons_of_mem t hu)
    simp [typesToJson, readTypes, ht, hts]

theorem readProperties_propertiesToJson {ps : List Property}
    (h : ∀ p ∈ ps, readType true p.type.toJson = some p.type) :
    readProperties (propertiesToJson ps) = some ps := by
  induction ps with
  | nil => rfl
  | cons p ps ih =>
    have hp := h p List.mem_cons_self
    have hps := ih fun q hq => h q (List.mem_cons_of_mem p hq)
    obtain ⟨name, type, optional, docs⟩ := p
    cases docs <;>
      simp [propertiesToJson, readProperties, readProperty, readTypeAt, lookup_member, hp, hps]

/-- **A written type is read as itself.** -/
theorem readType_toJson (held : Bool) (t : TypeExpr) : readType held t.toJson = some t := by
  induction t generalizing held with
  | keyword k =>
    change (Keyword.ofJson? (.text k.text)).map keyword = some (keyword k)
    rw [Keyword.ofJson?_text, Option.map_some]
  | literal v =>
    change (Literal.ofJson? v.toJson).map literal = some (literal v)
    rw [Literal.ofJson?_toJson, Option.map_some]
  | undefined | null | void | any | unknown | typeParameter => rfl
  | array e ih =>
    change (readType true e.toJson).map array = some (array e)
    rw [ih, Option.map_some]
  | union ms ih =>
    change (readTypes (typesToJson ms)).map union = some (union ms)
    rw [readTypes_typesToJson fun m hm => ih m hm true, Option.map_some]
  | intersection ms ih =>
    change (readTypes (typesToJson ms)).map intersection = some (intersection ms)
    rw [readTypes_typesToJson fun m hm => ih m hm true, Option.map_some]
  | reference name arguments ih =>
    have harguments := readTypes_typesToJson fun a ha => ih a ha true
    cases arguments with
    | nil => rfl
    | cons a as =>
      -- the reader comes as far as the name and the arguments by computation alone
      conv_lhs => whnf
      simp [lookup_member, readTypesAt, harguments]
  | object ms ih =>
    change (readProperties (propertiesToJson ms)).map object = some (object ms)
    rw [readProperties_propertiesToJson fun m hm => ih m hm true, Option.map_some]

theorem ofJson?_toJson (t : TypeExpr) : TypeExpr.ofJson? t.toJson = some t := by
  rw [TypeExpr.ofJson?, if_pos t.fit_toJson, readType_toJson]

end TypeExpr
end ApiSurface
