import ApiSurface.Proofs.Source.Argument
import ApiSurface.Route.Url
import Mathlib.Data.List.Basic

/-!
# The fragments of route arguments

A route argument stands for a fragment of a url if it is missing, a text, a list of texts or, on the
decorator of a class, an object whose field `path` is again one of these. Any other argument is
refused for the part of it that is none of these.

* `Denotes`, `Offends`: the fragment of an argument, and the part that an argument is refused for;
* `denotes_or_offends`: every argument has one or the other;
* **`routeFragment_eq_ok_iff`**, **`routeFragment_eq_error_iff`**: which arguments are read, and
  what is said about the others.
-/

namespace ApiSurface.Route

variable {objectAllowed : Bool} {arg : Option Argument} {s context : String} {found : Argument}

/-- The fragment that an argument, if there is one, stands for. -/
inductive Denotes (objectAllowed : Bool) : Option Argument → String → Prop
  | absent : Denotes objectAllowed none ""
  | text (s : String) : Denotes objectAllowed (some (.string s)) s
  | texts (ss : List String) :
    Denotes objectAllowed (some (.list (ss.map .string))) ("/".intercalate ss)
  | path {fields : List (String × Argument)} {s : String} (allowed : objectAllowed = true)
    (h : Denotes objectAllowed (fields.lookup "path") s) :
    Denotes objectAllowed (some (.object fields)) s

/-- The part for which an argument is refused: the first item of a list that is no text, the part of
a field `path` that is refused, or else the argument itself. -/
inductive Offends (objectAllowed : Bool) : Option Argument → Argument → Prop
  | number (n : Number) : Offends objectAllowed (some (.number n)) (.number n)
  | boolean (b : Bool) : Offends objectAllowed (some (.boolean b)) (.boolean b)
  | expression (source : String) :
    Offends objectAllowed (some (.expression source)) (.expression source)
  | item (ss : List String) (a : Argument) (rest : List Argument) (h : a.string? = none) :
    Offends objectAllowed (some (.list (ss.map .string ++ a :: rest))) a
  | object {fields : List (String × Argument)} (refused : objectAllowed = false) :
    Offends objectAllowed (some (.object fields)) (.object fields)
  | path {fields : List (String × Argument)} {found : Argument} (allowed : objectAllowed = true)
    (h : Offends objectAllowed (fields.lookup "path") found) :
    Offends objectAllowed (some (.object fields)) found

/-! ## Lists of texts -/

theorem texts_or_item (items : List Argument) :
    (∃ ss : List String, items = ss.map .string) ∨
      ∃ (ss : List String) (a : Argument) (rest : List Argument),
        items = ss.map .string ++ a :: rest ∧ a.string? = none := by
  induction items with
  | nil => exact Or.inl ⟨[], rfl⟩
  | cons a items ih =>
    cases h : a.string? with
    | none => exact Or.inr ⟨[], a, items, rfl, h⟩
    | some s =>
      have ha : a = .string s := by
        cases a <;> simp [Argument.string?] at h
        rw [h]
      rcases ih with ⟨ss, rfl⟩ | ⟨ss, b, rest, rfl, hb⟩
      · exact Or.inl ⟨s :: ss, by rw [ha, List.map_cons]⟩
      · exact Or.inr ⟨s :: ss, b, rest, by rw [ha, List.map_cons, List.cons_append], hb⟩

theorem textsOf_texts (ss : List String) : textsOf (ss.map .string) = .ok ss := by
  induction ss with
  | nil => rfl
  | cons s ss ih => simp [textsOf, ih, Except.map]

theorem textsOf_item (ss : List String) {a : Argument} (rest : List Argument)
    (h : a.string? = none) : textsOf (ss.map .string ++ a :: rest) = .error a := by
  induction ss with
  | nil => cases a <;> first | rfl | cases h
  | cons s ss ih => simp [textsOf, ih, Except.map]

/-! ## Reading -/

theorem fragmentOfPath_eq (fields : List (String × Argument)) :
    fragmentOfPath objectAllowed fields =
      (fields.lookup "path").elim (.ok "") (fragmentOf objectAllowed) := by
  induction fields with
  | nil => rfl
  | cons f fields ih =>
    obtain ⟨name, a⟩ := f
    rw [fragmentOfPath, List.lookup_cons]
    by_cases h : name = "path"
    · simp [h]
    · rw [if_neg h, ih, beq_false_of_ne (Ne.symm h)]

theorem fragmentOf_of_denotes (h : Denotes objectAllowed arg s) :
    arg.elim (.ok "") (fragmentOf objectAllowed) = .ok s := by
  induction h with
  | absent => rfl
  | text s => simp [fragmentOf]
  | texts ss => simp [fragmentOf, textsOf_texts, Except.map]
  | path allowed h ih =>
    rw [Option.elim_some, fragmentOf, if_pos allowed, fragmentOfPath_eq]
    exact ih

theorem fragmentOf_of_offends (h : Offends objectAllowed arg found) :
    arg.elim (.ok "") (fragmentOf objectAllowed) = .error found := by
  induction h with
  | number | boolean | expression => simp [fragmentOf]
  | item ss a rest h => simp [fragmentOf, textsOf_item ss rest h, Except.map]
  | object refused => simp [fragmentOf, refused]
  | path allowed h ih =>
    rw [Option.elim_some, fragmentOf, if_pos allowed, fragmentOfPath_eq]
    exact ih

theorem denotes_or_offends_some (objectAllowed : Bool) (a : Argument) :
    (∃ s, Denotes objectAllowed (some a) s) ∨ ∃ found, Offends objectAllowed (some a) found := by
  induction a with
  | string s => exact Or.inl ⟨s, .text s⟩
  | number n => exact Or.inr ⟨_, .number n⟩
  | boolean b => exact Or.inr ⟨_, .boolean b⟩
  | expression source => exact Or.inr ⟨_, .expression source⟩
  | list items _ =>
    rcases texts_or_item items with ⟨ss, rfl⟩ | ⟨ss, a, rest, rfl, h⟩
    · exact Or.inl ⟨_, .texts ss⟩
    · exact Or.inr ⟨_, .item ss a rest h⟩
  | object fields ih =>
    cases objectAllowed with
    | false => exact Or.inr ⟨_, .object rfl⟩
    | true =>
      cases h : fields.lookup "path" with
      | none => exact Or.inl ⟨"", .path rfl (h ▸ .absent)⟩
      | some a =>
        have hmem : ("path", a) ∈ fields := by
          obtain ⟨before, after, rfl, -⟩ := List.lookup_eq_some_iff.mp h
          exact List.mem_append_right before List.mem_cons_self
        rcases ih _ hmem with ⟨s, hs⟩ | ⟨found, hf⟩
        · exact Or.inl ⟨s, .path rfl (h ▸ hs)⟩
        · exact Or.inr ⟨found, .path rfl (h ▸ hf)⟩

/-- An argument stands for a fragment or is refused for a part of it. -/
theorem denotes_or_offends (objectAllowed : Bool) (arg : Option Argument) :
    (∃ s, Denotes objectAllowed arg s) ∨ ∃ found, Offends objectAllowed arg found := by
  cases arg with
  | none => exact Or.inl ⟨"", .absent⟩
  | some a => exact denotes_or_offends_some objectAllowed a

theorem not_offends_of_denotes (h : Denotes objectAllowed arg s) :
    ¬ Offends objectAllowed arg found := fun h' => by
  have := (fragmentOf_of_denotes h).symm.trans (fragmentOf_of_offends h')
  cases this

theorem routeFragment_eq (arg : Option Argument) (context : String) (objectAllowed : Bool) :
    routeFragment arg context objectAllowed =
      (arg.elim (.ok "") (fragmentOf objectAllowed)).mapError fun found =>
        .unknownArgument context found.describe objectAllowed := by
  cases arg with
  | none => rfl
  | some a =>
    simp only [routeFragment, Option.elim_some]
    cases fragmentOf objectAllowed a <;> rfl

theorem routeFragment_of_denotes (h : Denotes objectAllowed arg s) :
    routeFragment arg context objectAllowed = .ok s := by
  rw [routeFragment_eq, fragmentOf_of_denotes h]
  rfl

theorem routeFragment_of_offends (h : Offends objectAllowed arg found) :
    routeFragment arg context objectAllowed =
      .error (.unknownArgument context found.describe objectAllowed) := by
  rw [routeFragment_eq, fragmentOf_of_offends h]
  rfl

/-- **The arguments that are read are those that stand for a fragment.** -/
theorem routeFragment_eq_ok_iff :
    routeFragment arg context objectAllowed = .ok s ↔ Denotes objectAllowed arg s := by
  constructor
  · intro h
    rcases denotes_or_offends objectAllowed arg with ⟨t, ht⟩ | ⟨found, hf⟩
    · rw [routeFragment_of_denotes ht] at h
      cases h
      exact ht
    · rw [routeFragment_of_offends hf] at h
      cases h
  · exact routeFragment_of_denotes

/-- **Any other argument is refused for a part of it, which the failure describes.** -/
theorem routeFragment_eq_error_iff {e : Failure} :
    routeFragment arg context objectAllowed = .error e ↔
      ∃ found, Offends objectAllowed arg found ∧
        e = .unknownArgument context found.describe objectAllowed := by
  constructor
  · intro h
    rcases denotes_or_offends objectAllowed arg with ⟨t, ht⟩ | ⟨found, hf⟩
    · rw [routeFragment_of_denotes ht] at h
      cases h
    · rw [routeFragment_of_offends hf] at h
      exact ⟨found, hf, (Except.error.inj h).symm⟩
  · rintro ⟨found, hf, rfl⟩
    exact routeFragment_of_offends hf

end ApiSurface.Route
