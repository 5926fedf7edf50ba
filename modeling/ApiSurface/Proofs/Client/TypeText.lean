import ApiSurface.Proofs.Client.Code
import ApiSurface.Proofs.Number
import ApiSurface.Proofs.Schema.Plain

/-!
# The text of types as code

The text of a type is code that has the references of the type as words, if names start no comment
and no literal and the values and keys in quotes have no line break.

* `bare_numberText`: the texts of numbers are bare;
* `TypeExpr.Legible`: the types with such names, values and keys;
* `closed_text`: their texts end all comments and literals;
* **`wordOf_text`**: their references are words of their texts.
-/

namespace ApiSurface

open ApiSurface.Client ApiSurface.Text

/-! ## Numbers -/

theorem bare_numberText (n : Number) : Bare n.text :=
  List.all_eq_true.mpr fun c hc =>
    @isBare_of isNumberChar (by decide) c (List.all_eq_true.mp n.all_text c hc)

/-! ## Keys -/

theorem bare_of_isIdentifier {name : String} (h : isIdentifier name = true) : Bare name :=
  all_of_isIdentifier h (fun _ => @isBare_of isIdentStart (by decide) _)
    fun _ => @isBare_of isIdentPart (by decide) _

/-- A key is an identifier or a literal. -/
theorem closed_key {q : Char} (hq : q = '"' ∨ q = '\'') {name : String} (h : OneLine name) :
    Closed (if isIdentifier name then name else quoted q name) := by
  split_ifs with hname
  · exact (bare_of_isIdentifier hname).closed
  · exact closed_quoted hq h

theorem bare_optionalMark (optional : Bool) : Bare (optionalMark optional) := by
  cases optional <;> decide

namespace TypeExpr

/-! ## Types -/

/-- The types whose names are bare and whose values and keys have no line break. -/
inductive Legible : TypeExpr → Prop
  | keyword (k : Keyword) : Legible (.keyword k)
  | string {v : String} (h : OneLine v) : Legible (.literal (.string v))
  | number (n : Number) : Legible (.literal (.number n))
  | boolean (b : Bool) : Legible (.literal (.boolean b))
  | undefined : Legible .undefined
  | null : Legible .null
  | void : Legible .void
  | any : Legible .any
  | unknown : Legible .unknown
  | array {e : TypeExpr} (h : Legible e) : Legible (.array e)
  | union {ms : List TypeExpr} (h : ∀ m ∈ ms, Legible m) : Legible (.union ms)
  | intersection {ms : List TypeExpr} (h : ∀ m ∈ ms, Legible m) : Legible (.intersection ms)
  | reference {name : String} {arguments : List TypeExpr} (hname : Bare name)
    (h : ∀ a ∈ arguments, Legible a) : Legible (.reference name arguments)
  | typeParameter {name : String} (hname : Bare name) : Legible (.typeParameter name)
  | object {ms : List Property} (hkeys : ∀ m ∈ ms, OneLine m.name)
    (h : ∀ m ∈ ms, Legible m.type) : Legible (.object ms)

variable {s n : String} {t : TypeExpr}

theorem closed_parenthesized (needed : Bool) (hs : Closed s) : Closed (parenthesized needed s) := by
  unfold parenthesized
  split_ifs
  · exact .between (by decide) hs (by decide)
  · exact hs

theorem wordOf_parenthesized (needed : Bool) (hs : Closed s) (hn : WordOf n (code s)) :
    WordOf n (code (parenthesized needed s)) := by
  unfold parenthesized
  split_ifs
  · exact wordOf_code_between (by decide) (by decide) hs hn (by decide)
  · exact hn

theorem closed_keyColon {p : Property} (h : OneLine p.name) :
    Closed (keyText p.name ++ optionalMark p.optional ++ ": ") :=
  ((closed_key (Or.inl rfl) h).append (bare_optionalMark _).closed).append
    (Bare.closed (by decide))

/-- The text of a legible type ends all comments and literals. -/
theorem Legible.closed_text (h : t.Legible) : Closed t.text := by
  induction h with
  | keyword k => cases k <;> exact Bare.closed (by decide)
  | string hv => exact closed_quoted (Or.inl rfl) hv
  | number n => exact (bare_numberText n).closed
  | boolean b => cases b <;> exact Bare.closed (by decide)
  | undefined | null | void | any | unknown => exact Bare.closed (by decide)
  | array _ ih => exact (closed_parenthesized _ ih).append (Bare.closed (by decide))
  | union _ ih =>
    rw [text, texts_eq_map]
    exact closed_intercalate (Bare.closed (by decide)) (List.forall_mem_map.mpr ih)
  | intersection _ ih =>
    rw [text, operands_eq_map]
    exact closed_intercalate (Bare.closed (by decide))
      (List.forall_mem_map.mpr fun m hm => closed_parenthesized _ (ih m hm))
  | reference hname _ ih =>
    rw [text, texts_eq_map]
    split_ifs
    · exact hname.closed
    · exact .between (hname.append (by decide))
        (closed_intercalate (Bare.closed (by decide)) (List.forall_mem_map.mpr ih)) (by decide)
  | typeParameter hname => exact hname.closed
  | object hkeys _ ih =>
    rw [text, propertyTexts_eq_map]
    split_ifs
    · exact Bare.closed (by decide)
    · refine .between (by decide) (closed_intercalate (Bare.closed (by decide))
        (List.forall_mem_map.mpr fun m hm => ?_)) (by decide)
      exact (closed_keyColon (hkeys m hm)).append (ih m hm)

/-- **The references of a legible type are words of its text.** -/
theorem Legible.wordOf_text (h : t.Legible) (hn : Bounded n) (hmem : n ∈ t.references) :
    WordOf n (code t.text) := by
  induction h with
  | keyword | string | number | boolean | undefined | null | void | any | unknown
  | typeParameter => exact absurd hmem List.not_mem_nil
  | array h ih =>
    exact wordOf_code_append (closed_parenthesized _ h.closed_text)
      (wordOf_parenthesized _ h.closed_text (ih hmem)) (by decide)
  | union h ih =>
    obtain ⟨m, hm, hmem⟩ := mem_referencesOf.mp hmem
    rw [text, texts_eq_map]
    exact wordOf_intercalate (Bare.closed (by decide)) (by decide) (by decide)
      (List.forall_mem_map.mpr fun m hm => (h m hm).closed_text) (List.mem_map_of_mem hm)
      (ih m hm hmem)
  | intersection h ih =>
    obtain ⟨m, hm, hmem⟩ := mem_referencesOf.mp hmem
    rw [text, operands_eq_map]
    exact wordOf_intercalate (Bare.closed (by decide)) (by decide) (by decide)
      (List.forall_mem_map.mpr fun m hm => closed_parenthesized _ (h m hm).closed_text)
      (List.mem_map_of_mem hm) (wordOf_parenthesized _ (h m hm).closed_text (ih m hm hmem))
  | @reference name arguments hname h ih =>
    have hlist : Closed (", ".intercalate (arguments.map text)) :=
      closed_intercalate (Bare.closed (by decide))
        (List.forall_mem_map.mpr fun a ha => (h a ha).closed_text)
    rw [text, texts_eq_map]
    rcases List.mem_cons.mp hmem with rfl | hmem
    · have hself : WordOf n (code n) := hname.code_eq.symm ▸ hn.wordOf
      split_ifs
      · exact hself
      · rw [String.append_assoc, String.append_assoc]
        exact wordOf_code_append hname.closed hself
          (opensOutside_code_append (Bare.closed (by decide)) (by decide))
    · obtain ⟨a, ha, hmem⟩ := mem_referencesOf.mp hmem
      rw [if_neg (by rw [List.isEmpty_iff]; exact List.ne_nil_of_mem ha)]
      refine wordOf_code_between (hname.append (by decide)) (endsOutside_append (by decide)) hlist
        ?_ (by decide)
      exact wordOf_intercalate (Bare.closed (by decide)) (by decide) (by decide)
        (List.forall_mem_map.mpr fun a ha => (h a ha).closed_text) (List.mem_map_of_mem ha)
        (ih a ha hmem)
  | @object ms hkeys h ih =>
    obtain ⟨m, hm, hmem⟩ := mem_propertyReferences.mp hmem
    have hproperties : ∀ u ∈ ms.map propertyText, Closed u :=
      List.forall_mem_map.mpr fun m hm => (closed_keyColon (hkeys m hm)).append (h m hm).closed_text
    have hword : WordOf n (code (propertyText m)) :=
      wordOf_code_prepend (closed_keyColon (hkeys m hm)) (ih m hm hmem)
        (endsOutside_code_append ((closed_key (Or.inl rfl) (hkeys m hm)).append
          (bare_optionalMark _).closed) (by decide))
    rw [text, propertyTexts_eq_map, if_neg (by rw [List.isEmpty_iff]; exact List.ne_nil_of_mem hm)]
    refine wordOf_code_between (by decide) (by decide)
      (closed_intercalate (Bare.closed (by decide)) hproperties) ?_ (by decide)
    exact wordOf_intercalate (Bare.closed (by decide)) (by decide) (by decide) hproperties
      (List.mem_map_of_mem hm) hword

end TypeExpr

end ApiSurface
