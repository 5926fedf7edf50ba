import ApiSurface.Proofs.Source.TypeExpr

/-!
# What a type says

Types that are grouped differently may say the same. The form of a type has no union directly in a
union, no intersection directly in an intersection, none of a single member, no type parameters, no
descriptions of properties, and of numbers only their texts.

* `TypeForm`, `FieldForm`: the forms of types and of the members of object types;
* `TypeForm.join`: the union or the intersection of forms;
* `TypeExpr.form`: the form of a type;
* `TypeForm.Flat`, **`flat_join`**, **`parts_join`**: the members of a union of forms are the
  members of its members.
-/

namespace ApiSurface

/-- The types of one word or one literal; a number is taken by its text. -/
inductive Atom
  | keyword (keyword : Keyword)
  | undefined
  | null
  | void
  | any
  | unknown
  | string (value : String)
  | number (text : String)
  | boolean (value : Bool)
deriving DecidableEq, Repr

mutual

/-- What a type says. -/
inductive TypeForm
  | atom (atom : Atom)
  | array (element : TypeForm)
  | union (members : List TypeForm)
  | intersection (members : List TypeForm)
  | reference (name : String) (arguments : List TypeForm)
  | object (members : List FieldForm)
deriving Repr

/-- What a member of an object type says. -/
structure FieldForm where
  name : String
  type : TypeForm
  optional : Bool
deriving Repr

end

/-- The two ways to join types. -/
inductive Joint
  | union
  | intersection
deriving DecidableEq, Repr

namespace TypeForm

/-- Members joined in one of the two ways. -/
def ofJoint : Joint → List TypeForm → TypeForm
  | .union, fs => .union fs
  | .intersection, fs => .intersection fs

/-- The members of a form that is joined in the given way; any other form is the only one. -/
def parts : Joint → TypeForm → List TypeForm
  | .union, .union fs => fs
  | .intersection, .intersection fs => fs
  | _, f => [f]

/-- Members joined, unless there is only one. -/
def gather (j : Joint) : List TypeForm → TypeForm
  | [f] => f
  | fs => ofJoint j fs

/-- Forms joined: those that are joined in the same way already are opened, and a single member
stands on its own. -/
def join (j : Joint) (fs : List TypeForm) : TypeForm := gather j (fs.flatMap (parts j))

end TypeForm

/-- A literal as an atom. -/
def Literal.atom : Literal → Atom
  | string value => .string value
  | number n => .number n.text
  | boolean value => .boolean value

namespace TypeExpr

open TypeForm

mutual

/-- What a type says. -/
def form : TypeExpr → TypeForm
  | keyword k => .atom (.keyword k)
  | literal v => .atom v.atom
  | undefined => .atom .undefined
  | null => .atom .null
  | void => .atom .void
  | any => .atom .any
  | unknown => .atom .unknown
  | array e => .array e.form
  | union ms => join .union (forms ms)
  | intersection ms => join .intersection (forms ms)
  | reference name arguments => .reference name (forms arguments)
  | typeParameter name => .reference name []
  | object ms => .object (fieldForms ms)

/-- What each type says. -/
def forms : List TypeExpr → List TypeForm
  | [] => []
  | t :: ts => t.form :: forms ts

/-- What each property says. -/
def fieldForms : List Property → List FieldForm
  | [] => []
  | ⟨name, type, optional, _⟩ :: ps => ⟨name, type.form, optional⟩ :: fieldForms ps

end

theorem forms_eq_map (ts : List TypeExpr) : forms ts = ts.map form := by
  induction ts with
  | nil => rfl
  | cons t ts ih => rw [forms, ih, List.map_cons]

/-- What a property says. -/
def fieldForm (p : Property) : FieldForm := ⟨p.name, p.type.form, p.optional⟩

theorem fieldForms_eq_map (ps : List Property) : fieldForms ps = ps.map fieldForm := by
  induction ps with
  | nil => rfl
  | cons p ps ih =>
    obtain ⟨name, type, optional, docs⟩ := p
    rw [fieldForms, ih, List.map_cons]
    rfl

end TypeExpr

/-! ## Members of members -/

namespace TypeForm

variable {j k : Joint} {f : TypeForm} {fs gs : List TypeForm}

@[simp] theorem parts_ofJoint (j : Joint) (fs : List TypeForm) : (ofJoint j fs).parts j = fs := by
  cases j <;> rfl

theorem ofJoint_inj (h : ofJoint j fs = ofJoint k gs) : j = k ∧ fs = gs := by
  cases j <;> cases k <;> cases h <;> exact ⟨rfl, rfl⟩

theorem parts_cases (j : Joint) (f : TypeForm) : f.parts j = [f] ∨ ∃ gs, f = ofJoint j gs := by
  cases j <;> cases f <;> first | exact Or.inl rfl | exact Or.inr ⟨_, rfl⟩

theorem gather_eq (h : 2 ≤ fs.length) : gather j fs = ofJoint j fs := by
  match fs, h with
  | _ :: _ :: _, _ => rfl

/-- A form whose members are two or more and not joined in the same way as it. -/
def Flat (f : TypeForm) : Prop :=
  ∀ j gs, f = ofJoint j gs → 2 ≤ gs.length ∧ ∀ g ∈ gs, g.parts j = [g]

theorem Flat.parts_mem (h : f.Flat) : ∀ g ∈ f.parts j, g.parts j = [g] := by
  rcases parts_cases j f with hself | ⟨gs, rfl⟩
  · rw [hself, List.forall_mem_singleton]
    exact hself
  · rw [parts_ofJoint]
    exact (h j gs rfl).2

theorem Flat.one_le_length_parts (h : f.Flat) (j : Joint) : 1 ≤ (f.parts j).length := by
  rcases parts_cases j f with hself | ⟨gs, rfl⟩
  · rw [hself]
    exact Nat.le_refl 1
  · rw [parts_ofJoint]
    exact Nat.le_of_succ_le (h j gs rfl).1

/-- Opening a form and joining its members again gives the form. -/
theorem Flat.gather_parts (h : f.Flat) (j : Joint) : gather j (f.parts j) = f := by
  rcases parts_cases j f with hself | ⟨gs, rfl⟩
  · rw [hself, gather]
  · rw [parts_ofJoint, gather_eq (h j gs rfl).1]

/-- Two forms or more have two members or more. -/
theorem two_le_length_flatMap_parts {f g : TypeForm} (h : ∀ e ∈ f :: g :: fs, Flat e) :
    2 ≤ ((f :: g :: fs).flatMap (parts j)).length := by
  have hf := (h f List.mem_cons_self).one_le_length_parts j
  have hg := (h g (List.mem_cons_of_mem _ List.mem_cons_self)).one_le_length_parts j
  rw [List.flatMap_cons, List.flatMap_cons, List.length_append, List.length_append]
  omega

theorem join_singleton (h : f.Flat) (j : Joint) : join j [f] = f := by
  rw [join, List.flatMap_singleton, h.gather_parts]

/-- **The members of joined forms are the members of the forms.** -/
theorem parts_join (hne : fs ≠ []) (h : ∀ f ∈ fs, Flat f) (j : Joint) :
    (join j fs).parts j = fs.flatMap (parts j) := by
  match fs, hne with
  | [f], _ => rw [join_singleton (h f List.mem_cons_self), List.flatMap_singleton]
  | f :: g :: fs, _ => rw [join, gather_eq (two_le_length_flatMap_parts h), parts_ofJoint]

/-- **Joined forms are flat if the forms are.** -/
theorem flat_join (hne : fs ≠ []) (h : ∀ f ∈ fs, Flat f) (j : Joint) : (join j fs).Flat := by
  match fs, hne with
  | [f], _ =>
    rw [join_singleton (h f List.mem_cons_self)]
    exact h f List.mem_cons_self
  | f :: g :: fs, _ =>
    have htwo := two_le_length_flatMap_parts (j := j) h
    rw [join, gather_eq htwo]
    intro k gs heq
    obtain ⟨rfl, rfl⟩ := ofJoint_inj heq
    refine ⟨htwo, fun e he => ?_⟩
    obtain ⟨d, hd, he⟩ := List.mem_flatMap.mp he
    exact (h d hd).parts_mem e he

end TypeForm

end ApiSurface
