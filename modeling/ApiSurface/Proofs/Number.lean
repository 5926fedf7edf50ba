import ApiSurface.Number.Basic
import Mathlib.Tactic.SplitIfs

/-!
# The texts of numbers

A number is written with digits, a point, an exponent and signs, and starts with a digit or with the
sign of a negative one.

* `isNumberChar`: the characters of numbers;
* `Number.all_text`: no others stand in the text of a number;
* `Number.exists_text_eq`: how it starts.
-/

namespace ApiSurface

/-- The characters that numbers are written with. -/
def isNumberChar (c : Char) : Bool := c.isDigit || ['.', 'e', '+', '-'].contains c

theorem isNumberChar_of_isDigit {c : Char} (h : c.isDigit = true) : isNumberChar c = true := by
  rw [isNumberChar, h, Bool.true_or]

theorem isDigit_of_mem_toDigits {n : Nat} {c : Char} (h : c ∈ Nat.toDigits 10 n) :
    c.isDigit = true :=
  Nat.isDigit_of_mem_toDigits (by decide) (by decide) h

theorem isDigit_of_mem_zeros {n : Nat} {c : Char} (h : c ∈ zeros n) : c.isDigit = true :=
  List.eq_of_mem_replicate h ▸ by decide

/-- The digits before and after the point are digits, and before it there are some. -/
theorem isDigit_positional (digits : Nat) (exponent : Int) :
    (∀ c ∈ (positional digits exponent).1, c.isDigit = true) ∧
      (∀ c ∈ (positional digits exponent).2, c.isDigit = true) ∧
      (positional digits exponent).1 ≠ [] := by
  unfold positional
  dsimp only
  split_ifs with _ hlt
  · refine ⟨fun c hc => ?_, fun c hc => absurd hc List.not_mem_nil, ?_⟩
    · exact (List.mem_append.mp hc).elim isDigit_of_mem_toDigits isDigit_of_mem_zeros
    · exact List.append_ne_nil_of_left_ne_nil Nat.toDigits_ne_nil _
  · refine ⟨fun c hc => isDigit_of_mem_toDigits (List.mem_of_mem_take hc),
      fun c hc => isDigit_of_mem_toDigits (List.mem_of_mem_drop hc), fun hnil => ?_⟩
    have hlength := congrArg List.length hnil
    rw [List.length_take, List.length_nil] at hlength
    omega
  · refine ⟨fun c hc => List.mem_singleton.mp hc ▸ by decide, fun c hc => ?_,
      List.cons_ne_nil _ _⟩
    exact (List.mem_append.mp hc).elim isDigit_of_mem_zeros isDigit_of_mem_toDigits

theorem exists_scientific_eq (digits : Nat) (power : Int) :
    ∃ c cs, scientific digits power = c :: cs ∧ c.isDigit = true ∧
      ∀ d ∈ cs, isNumberChar d = true := by
  have hpower : ∀ d ∈ Nat.toDigits 10 power.natAbs, isNumberChar d = true := fun d hd =>
    isNumberChar_of_isDigit (isDigit_of_mem_toDigits hd)
  have hsign : isNumberChar (if 0 ≤ power then '+' else '-') = true := by split_ifs <;> decide
  have hexponent : ∀ d ∈ 'e' :: (if 0 ≤ power then '+' else '-') :: Nat.toDigits 10 power.natAbs,
      isNumberChar d = true := by
    simp only [List.forall_mem_cons]
    exact ⟨by decide, hsign, hpower⟩
  obtain ⟨c, cs, hcs⟩ := List.exists_cons_of_ne_nil (Nat.toDigits_ne_nil (b := 10) (n := digits))
  have hdigits : ∀ d ∈ c :: cs, d.isDigit = true := fun d hd => isDigit_of_mem_toDigits (hcs ▸ hd)
  obtain ⟨hc, hcs'⟩ := List.forall_mem_cons.mp hdigits
  unfold scientific
  rw [hcs]
  cases cs with
  | nil => exact ⟨c, _, rfl, hc, hexponent⟩
  | cons d ds =>
    refine ⟨c, '.' :: d :: ds ++ 'e' :: _ :: _, rfl, hc, ?_⟩
    refine List.forall_mem_append.mpr ⟨List.forall_mem_cons.mpr ⟨by decide, ?_⟩, hexponent⟩
    exact fun e he => isNumberChar_of_isDigit (hcs' e he)

theorem exists_pointed_eq (digits : Nat) (exponent : Int) {part : List Char}
    (hpart : ∀ d ∈ part, d.isDigit = true) :
    ∃ c cs, (positional digits exponent).1 ++ '.' :: part = c :: cs ∧ c.isDigit = true ∧
      ∀ d ∈ cs, isNumberChar d = true := by
  obtain ⟨hwhole, -, hne⟩ := isDigit_positional digits exponent
  obtain ⟨c, cs, hcs⟩ := List.exists_cons_of_ne_nil hne
  rw [hcs] at hwhole ⊢
  obtain ⟨hc, hcs'⟩ := List.forall_mem_cons.mp hwhole
  refine ⟨c, cs ++ '.' :: part, rfl, hc, List.forall_mem_append.mpr ⟨fun d hd => ?_, ?_⟩⟩
  · exact isNumberChar_of_isDigit (hcs' d hd)
  · exact List.forall_mem_cons.mpr
      ⟨by decide, fun d hd => isNumberChar_of_isDigit (hpart d hd)⟩

theorem Magnitude.exists_text_eq (m : Magnitude) :
    ∃ c cs, m.text = c :: cs ∧ c.isDigit = true ∧ ∀ d ∈ cs, isNumberChar d = true := by
  unfold Magnitude.text
  dsimp only
  split_ifs
  · exact exists_pointed_eq _ _ (List.forall_mem_singleton.mpr (by decide))
  · exact exists_pointed_eq _ _ (isDigit_positional _ _).2.1
  · exact exists_scientific_eq _ _

namespace Number

theorem toList_toString (n : Nat) : (toString n).toList = Nat.toDigits 10 n := by
  have htext : toString n = String.ofList (Nat.toDigits 10 n) := Nat.repr_eq_ofList_toDigits
  rw [htext, String.toList_ofList]

/-- **The text of a number** starts with a digit or a sign, and all of its characters are those of
numbers. -/
theorem exists_text_eq (n : Number) :
    ∃ c cs, n.text.toList = c :: cs ∧ (c.isDigit = true ∨ c = '-') ∧
      ∀ d ∈ cs, isNumberChar d = true := by
  cases n with
  | natural n =>
    obtain ⟨c, cs, hcs⟩ := List.exists_cons_of_ne_nil (Nat.toDigits_ne_nil (b := 10) (n := n))
    have hdigits : ∀ d ∈ c :: cs, d.isDigit = true := fun d hd => isDigit_of_mem_toDigits (hcs ▸ hd)
    obtain ⟨hc, hcs'⟩ := List.forall_mem_cons.mp hdigits
    exact ⟨c, cs, (toList_toString n).trans hcs, Or.inl hc,
      fun d hd => isNumberChar_of_isDigit (hcs' d hd)⟩
  | negative n =>
    refine ⟨'-', Nat.toDigits 10 n, ?_, Or.inr rfl,
      fun d hd => isNumberChar_of_isDigit (isDigit_of_mem_toDigits hd)⟩
    rw [text, String.toList_append, toList_toString]
    rfl
  | real x =>
    obtain ⟨c, cs, hcs, hc, hall⟩ := x.size.exists_text_eq
    have htext : (real x).text.toList = if x.negative then '-' :: x.size.text else x.size.text := by
      rw [text, Binary64.text, String.toList_ofList]
    rw [htext, hcs]
    split_ifs
    · exact ⟨'-', c :: cs, rfl, Or.inr rfl,
        List.forall_mem_cons.mpr ⟨isNumberChar_of_isDigit hc, hall⟩⟩
    · exact ⟨c, cs, rfl, Or.inl hc, hall⟩

theorem all_text (n : Number) : n.text.toList.all isNumberChar = true := by
  obtain ⟨c, cs, hcs, hc, hall⟩ := n.exists_text_eq
  rw [hcs, List.all_cons, List.all_eq_true.mpr hall, Bool.and_true]
  rcases hc with hc | rfl
  · exact isNumberChar_of_isDigit hc
  · decide

end Number

end ApiSurface
