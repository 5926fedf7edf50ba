import ApiSurface.Proofs.Schema.Plain

/-!
# Kinds of notes on schemas

* `Noted.Only`: all notes taken on the way to a value are of given kinds, kept by going on;
* **`only_resolve`**, **`only_synthesize`**: what notes on types and declarations are about.
-/

namespace ApiSurface

namespace Noted

variable {α β : Type} {codes : List NoteCode}

/-- All notes taken on the way to a value are of the given kinds. -/
def Only (codes : List NoteCode) (m : Noted α) : Prop := ∀ n ∈ m.notes, n.code ∈ codes

theorem only_pure (a : α) : Only codes (Pure.pure a : Noted α) :=
  fun _ hn => absurd hn List.not_mem_nil

theorem only_bind {m : Noted α} {f : α → Noted β} (hm : Only codes m)
    (hf : Only codes (f m.value)) : Only codes (m >>= f) := by
  intro n hn
  rw [notes_bind, List.mem_append] at hn
  exact hn.elim (hm n) (hf n)

theorem only_single {a : α} {n : Note} (h : n.code ∈ codes) : Only codes (⟨a, [n]⟩ : Noted α) := by
  intro k hk
  rw [List.mem_singleton.mp hk]
  exact h

theorem Only.mono {more : List NoteCode} {m : Noted α} (h : Only codes m)
    (hmore : ∀ k ∈ codes, k ∈ more) : Only more m :=
  fun n hn => hmore _ (h n hn)

theorem Only.filter_eq_nil {code : NoteCode} {m : Noted α} (h : Only codes m)
    (hcode : code ∉ codes) : m.notes.filter (fun n => n.code = code) = [] := by
  rw [List.filter_eq_nil_iff]
  intro n hn heq
  exact hcode (of_decide_eq_true heq ▸ h n hn)

end Noted

open Noted

variable (catalog : Option Catalog)

/-! ## Types -/

/-- What notes on types are about. -/
def typeCodes : List NoteCode := [.genericArguments, .typeParameter, .unresolvedReference]

theorem only_resolveAll {subject : String} {ts : List TypeExpr}
    (h : ∀ t ∈ ts, Only typeCodes (resolve catalog subject t)) :
    Only typeCodes (resolveAll catalog subject ts) := by
  induction ts with
  | nil => rw [resolveAll]; exact only_pure _
  | cons t ts ih =>
    rw [resolveAll]
    refine only_bind (h t List.mem_cons_self) (only_bind (ih fun u hu => ?_) (only_pure _))
    exact h u (List.mem_cons_of_mem _ hu)

/-- **Notes on types are about type arguments, type parameters and unknown references.** -/
theorem only_resolve (subject : String) (t : TypeExpr) :
    Only typeCodes (resolve catalog subject t) := by
  induction t with
  | keyword k => rw [resolve]; exact only_pure _
  | literal v => rw [resolve]; exact only_pure _
  | undefined => rw [resolve]; exact only_pure _
  | null => rw [resolve]; exact only_pure _
  | void => rw [resolve]; exact only_pure _
  | any => rw [resolve]; exact only_pure _
  | unknown => rw [resolve]; exact only_pure _
  | object ms => rw [resolve]; exact only_pure _
  | typeParameter name => rw [resolve]; exact only_single (by simp [typeCodes, Note.typeParameter])
  | array e ih => rw [resolve]; exact only_bind ih (only_pure _)
  | union ms ih => rw [resolve]; exact only_bind (only_resolveAll catalog ih) (only_pure _)
  | intersection ms ih => rw [resolve]; exact only_bind (only_resolveAll catalog ih) (only_pure _)
  | reference name arguments ih =>
    cases arguments with
    | nil =>
      rw [resolve]
      split_ifs
      · exact only_pure _
      · unfold resolveName
        split_ifs
        · exact only_pure _
        · exact only_single (by simp [typeCodes, Note.unresolved])
    | cons a rest =>
      have ha := ih a List.mem_cons_self
      cases rest with
      | nil =>
        rw [resolve]
        split_ifs
        · exact ha
        · exact only_bind ha (only_pure _)
        · exact only_single (by simp [typeCodes, Note.genericArguments])
      | cons b rest =>
        rw [resolve]
        · exact only_single (by simp [typeCodes, Note.genericArguments])
        · simp
        · simp

/-! ## Declarations -/

/-- What notes on declarations are about. -/
def declarationCodes : List NoteCode := .mixedEnum :: typeCodes

theorem only_resolve_declaration (subject : String) (t : TypeExpr) :
    Only declarationCodes (resolve catalog subject t) :=
  (only_resolve catalog subject t).mono fun _ hk => List.mem_cons_of_mem _ hk

theorem only_synthesizeProperties (owner : String) (ps : List Property) :
    Only declarationCodes (synthesizeProperties catalog owner ps) := by
  induction ps with
  | nil => exact only_pure _
  | cons p ps ih =>
    rw [synthesizeProperties]
    exact only_bind (only_resolve_declaration catalog _ _) (only_bind ih (only_pure _))

theorem only_synthesizeObject (d : Declaration) :
    Only declarationCodes (synthesizeObject catalog d) := by
  unfold synthesizeObject
  refine only_bind (only_synthesizeProperties catalog _ _) ?_
  dsimp only
  split_ifs <;> exact only_pure _

theorem only_synthesizeEnum (name : String) (ms : List EnumMember) :
    Only declarationCodes (synthesizeEnum name ms) := by
  cases ms with
  | nil => exact only_pure _
  | cons first rest =>
    unfold synthesizeEnum
    dsimp only
    split_ifs
    · exact only_pure _
    · exact only_single (by simp [declarationCodes, Note.mixedEnum])

/-- **Notes on declarations are about their types or about mixed enumerations.** -/
theorem only_synthesize (d : Declaration) : Only declarationCodes (synthesize catalog d) := by
  unfold synthesize
  split
  · exact only_synthesizeObject catalog d
  · exact only_synthesizeObject catalog d
  · exact only_synthesizeEnum d.name _
  · exact only_bind (only_resolve_declaration catalog _ _) (only_pure _)

end ApiSurface
