import ApiSurface.Source.TypeExpr

/-!
# Types and their parts

* `TypeExpr.induction`: what passes from the parts of a type to the type holds of all types;
* `mem_referencesOf`, `mem_propertyReferences`: the names that several types mention;
* `TypeExpr.Refers`, `refers_iff`: a type refers to the names of the references in it, at any depth;
* `texts_eq_map`, `operands_eq_map`, `propertyTexts_eq_map`: several types in source notation;
* `exists_isIdentifier`, `all_of_isIdentifier`: the characters of identifiers.
-/

namespace ApiSurface

/-- What passes from the parts of a type to the type holds of every type. -/
@[elab_as_elim, induction_eliminator]
theorem TypeExpr.induction {p : TypeExpr → Prop}
    (keyword : ∀ k, p (.keyword k)) (literal : ∀ v, p (.literal v)) (undefined : p .undefined)
    (null : p .null) (void : p .void) (any : p .any) (unknown : p .unknown)
    (array : ∀ e, p e → p (.array e))
    (union : ∀ ms, (∀ m ∈ ms, p m) → p (.union ms))
    (intersection : ∀ ms, (∀ m ∈ ms, p m) → p (.intersection ms))
    (reference : ∀ name arguments, (∀ a ∈ arguments, p a) → p (.reference name arguments))
    (typeParameter : ∀ name, p (.typeParameter name))
    (object : ∀ ms : List Property, (∀ m ∈ ms, p m.type) → p (.object ms)) (t : TypeExpr) :
    p t := by
  refine @TypeExpr.rec p (fun m => p m.type) (fun ts => ∀ t ∈ ts, p t)
    (fun ms => ∀ m ∈ ms, p m.type) keyword literal undefined null void any unknown array union
    intersection reference typeParameter object (fun _ _ _ _ h => h) ?_ ?_ ?_ ?_ t
  · exact fun t ht => absurd ht List.not_mem_nil
  · intro t ts ht hts u hu
    rcases List.mem_cons.mp hu with rfl | hu
    · exact ht
    · exact hts u hu
  · exact fun m hm => absurd hm List.not_mem_nil
  · intro m ms hm hms q hq
    rcases List.mem_cons.mp hq with rfl | hq
    · exact hm
    · exact hms q hq

namespace TypeExpr

@[simp] theorem mem_referencesOf {n : String} {ts : List TypeExpr} :
    n ∈ referencesOf ts ↔ ∃ t ∈ ts, n ∈ t.references := by
  induction ts with
  | nil => simp [referencesOf]
  | cons t ts ih => simp [referencesOf, ih]

@[simp] theorem mem_propertyReferences {n : String} {ps : List Property} :
    n ∈ propertyReferences ps ↔ ∃ p ∈ ps, n ∈ p.type.references := by
  induction ps with
  | nil => simp [propertyReferences]
  | cons p ps ih =>
    obtain ⟨_, type, _, _⟩ := p
    simp [propertyReferences, ih]

/-- A type refers to a name: it is a reference of that name, or one of its parts refers to it. -/
inductive Refers (n : String) : TypeExpr → Prop
  | name (arguments : List TypeExpr) : Refers n (.reference n arguments)
  | argument {m : String} {arguments : List TypeExpr} {t : TypeExpr} (ht : t ∈ arguments)
    (h : Refers n t) : Refers n (.reference m arguments)
  | element {e : TypeExpr} (h : Refers n e) : Refers n (.array e)
  | union {ms : List TypeExpr} {t : TypeExpr} (ht : t ∈ ms) (h : Refers n t) : Refers n (.union ms)
  | intersection {ms : List TypeExpr} {t : TypeExpr} (ht : t ∈ ms) (h : Refers n t) :
    Refers n (.intersection ms)
  | property {ps : List Property} {p : Property} (hp : p ∈ ps) (h : Refers n p.type) :
    Refers n (.object ps)

/-- A type refers to the names of its references. -/
theorem refers_iff {n : String} {t : TypeExpr} : t.Refers n ↔ n ∈ t.references := by
  constructor
  · intro h
    induction h with
    | name arguments => exact List.mem_cons_self
    | argument ht _ ih => exact List.mem_cons_of_mem _ (mem_referencesOf.mpr ⟨_, ht, ih⟩)
    | element _ ih => exact ih
    | union ht _ ih => exact mem_referencesOf.mpr ⟨_, ht, ih⟩
    | intersection ht _ ih => exact mem_referencesOf.mpr ⟨_, ht, ih⟩
    | property hp _ ih => exact mem_propertyReferences.mpr ⟨_, hp, ih⟩
  · intro h
    induction t with
    | array e ih => exact .element (ih h)
    | union ms ih =>
      obtain ⟨t, ht, h⟩ := mem_referencesOf.mp h
      exact .union ht (ih t ht h)
    | intersection ms ih =>
      obtain ⟨t, ht, h⟩ := mem_referencesOf.mp h
      exact .intersection ht (ih t ht h)
    | reference name arguments ih =>
      rcases List.mem_cons.mp h with rfl | h
      · exact .name arguments
      · obtain ⟨t, ht, h⟩ := mem_referencesOf.mp h
        exact .argument ht (ih t ht h)
    | object ps ih =>
      obtain ⟨p, hp, h⟩ := mem_propertyReferences.mp h
      exact .property hp (ih p hp h)
    | _ => exact absurd h List.not_mem_nil

theorem texts_eq_map (ts : List TypeExpr) : texts ts = ts.map text := by
  induction ts with
  | nil => rfl
  | cons t ts ih => rw [texts, ih, List.map_cons]

theorem operands_eq_map (ts : List TypeExpr) :
    operands ts = ts.map fun t => parenthesized t.isUnion t.text := by
  induction ts with
  | nil => rfl
  | cons t ts ih => rw [operands, ih, List.map_cons]

/-- A property in source notation. -/
def propertyText (p : Property) : String :=
  keyText p.name ++ optionalMark p.optional ++ ": " ++ p.type.text

theorem propertyTexts_eq_map (ps : List Property) : propertyTexts ps = ps.map propertyText := by
  induction ps with
  | nil => rfl
  | cons p ps ih =>
    obtain ⟨name, type, optional, docs⟩ := p
    rw [propertyTexts, ih, List.map_cons]
    rfl

end TypeExpr

/-! ## Identifiers -/

open ApiSurface.Text

theorem not_isIdentStart_of_isDigit {c : Char} (h : c.isDigit = true) : isIdentStart c = false := by
  have hdigits : ∀ n < 58, 48 ≤ n → isIdentStart (Char.ofNat n) = false := by decide
  obtain ⟨hlow, hhigh⟩ := Bool.and_eq_true_iff.mp h
  rw [← Char.ofNat_toNat c]
  exact hdigits c.toNat (Nat.lt_succ_of_le (of_decide_eq_true hhigh)) (of_decide_eq_true hlow)

theorem exists_isIdentifier {name : String} (h : isIdentifier name = true) :
    ∃ c cs, name.toList = c :: cs ∧ isIdentStart c = true ∧ cs.all isIdentPart = true := by
  unfold isIdentifier at h
  cases hname : name.toList with
  | nil => rw [hname] at h; cases h
  | cons c cs =>
    rw [hname, Bool.and_eq_true] at h
    exact ⟨c, cs, rfl, h⟩

theorem all_of_isIdentifier {p : Char → Bool} {name : String} (h : isIdentifier name = true)
    (hstart : ∀ c, isIdentStart c = true → p c = true)
    (hpart : ∀ c, isIdentPart c = true → p c = true) : name.toList.all p = true := by
  obtain ⟨c, cs, hname, hc, hcs⟩ := exists_isIdentifier h
  rw [hname, List.all_cons, hstart c hc, Bool.true_and]
  exact List.all_eq_true.mpr fun d hd => hpart d (List.all_eq_true.mp hcs d hd)

end ApiSurface
