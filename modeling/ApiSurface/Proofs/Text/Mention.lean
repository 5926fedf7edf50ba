import ApiSurface.Text.Word
import Mathlib.Data.List.Basic

/-!
# Names as words of a text

A name that word characters bound is found wherever no word character stands next to it.

* `Bounded`: the first and the last character of a name belong to words;
* `opensOutside`, `endsOutside`: a text begins or ends with a character that belongs to no word;
* `mentions_between`: a bounded name is found between two such texts;
* `WordOf`, `InnerWord`: a name is found wherever a text stands apart, or wherever it stands.
-/

namespace ApiSurface.Text

/-- The first and the last character of a name belong to words. -/
def Bounded (n : String) : Prop :=
  n.toList.head?.any isWord = true ∧ n.toList.getLast?.any isWord = true

instance (n : String) : Decidable (Bounded n) := inferInstanceAs (Decidable (_ ∧ _))

/-- A text begins with a character that belongs to no word. -/
def opensOutside (s : String) : Bool := s.toList.head?.any fun c => !isWord c

/-- A text ends with a character that belongs to no word. -/
def endsOutside (s : String) : Bool := s.toList.getLast?.any fun c => !isWord c

variable {n s t y z : String}

theorem opensOutside_append (h : opensOutside s = true) : opensOutside (s ++ t) = true := by
  unfold opensOutside at h ⊢
  rw [String.toList_append]
  cases hs : s.toList with
  | nil => rw [hs] at h; cases h
  | cons c cs => rw [hs] at h; exact h

theorem endsOutside_append (h : endsOutside t = true) : endsOutside (s ++ t) = true := by
  unfold endsOutside at h ⊢
  rw [String.toList_append, List.getLast?_append]
  cases ht : t.toList.getLast? with
  | none => rw [ht] at h; cases h
  | some c => rw [ht] at h; exact h

/-! ## Mentions -/

theorem mentionedFrom_of_mentionedAt {name text : List Char} {before : Option Char}
    (h : mentionedAt name before text = true) : mentionedFrom name before text = true := by
  cases text with
  | nil => exact h
  | cons c text =>
    rw [mentionedFrom, h]
    rfl

theorem mentionedFrom_append {name front text : List Char} {before : Option Char}
    (h : mentionedFrom name (front.getLast?.or before) text = true) :
    mentionedFrom name before (front ++ text) = true := by
  induction front generalizing before with
  | nil => exact h
  | cons c front ih =>
    have hlast : (c :: front).getLast?.or before = front.getLast?.or (some c) := by
      rw [List.getLast?_cons]
      cases front.getLast? <;> rfl
    rw [hlast] at h
    rw [List.cons_append, mentionedFrom, ih h, Bool.or_true]

theorem mentionedAt_append {name text : List Char} {before : Option Char}
    (hfirst : name.head?.any isWord = true) (hlast : name.getLast?.any isWord = true)
    (hbefore : before.any isWord = false) (htext : text.head?.any isWord = false) :
    mentionedAt name before (name ++ text) = true := by
  have hname : name ≠ [] := by
    rintro rfl
    cases hfirst
  have hhead : (name ++ text).head? = name.head? := List.head?_append_of_ne_nil name hname
  obtain ⟨c, hc⟩ : ∃ c, name.getLast? = some c :=
    ⟨name.getLast hname, List.getLast?_eq_some_getLast hname⟩
  have hword : isWord c = true := by
    rw [hc] at hlast
    exact hlast
  unfold mentionedAt isBoundary
  rw [hhead, hfirst, hbefore, hc, List.drop_left, htext, Option.any_some, hword,
    List.isPrefixOf_iff_prefix.mpr (List.prefix_append name text)]
  rfl

/-- **A bounded name is found between two texts that do not join it to a word.** -/
theorem mentions_between (hn : Bounded n) (hy : endsOutside y = true)
    (hz : opensOutside z = true) : mentions (y ++ n ++ z) n = true := by
  have hbefore : (y.toList.getLast?.or none).any isWord = false := by
    unfold endsOutside at hy
    cases hlast : y.toList.getLast? with
    | none => rfl
    | some c => rw [hlast] at hy; simpa using hy
  have hafter : z.toList.head?.any isWord = false := by
    unfold opensOutside at hz
    cases hhead : z.toList.head? with
    | none => rfl
    | some c => rw [hhead] at hz; simpa using hz
  unfold mentions
  rw [String.toList_append, String.toList_append, List.append_assoc]
  exact mentionedFrom_append
    (mentionedFrom_of_mentionedAt (mentionedAt_append hn.1 hn.2 hbefore hafter))

/-! ## Texts inside texts -/

/-- The name is found in a text wherever the text stands apart from words around it. -/
def WordOf (n s : String) : Prop :=
  ∀ y z, endsOutside y = true → opensOutside z = true → mentions (y ++ s ++ z) n = true

/-- The name is found in a text wherever the text stands. -/
def InnerWord (n s : String) : Prop := ∀ y z, mentions (y ++ s ++ z) n = true

theorem Bounded.wordOf (hn : Bounded n) : WordOf n n := fun _ _ hy hz => mentions_between hn hy hz

theorem WordOf.append (h : WordOf n s) (hz : opensOutside z = true) : WordOf n (s ++ z) := by
  intro y z' hy _
  have hassoc : y ++ (s ++ z) ++ z' = y ++ s ++ (z ++ z') := by simp only [String.append_assoc]
  rw [hassoc]
  exact h y _ hy (opensOutside_append hz)

theorem WordOf.prepend (h : WordOf n s) (hy : endsOutside y = true) : WordOf n (y ++ s) := by
  intro y' z _ hz
  rw [← String.append_assoc]
  exact h _ z (endsOutside_append hy) hz

theorem WordOf.between (h : WordOf n s) (hy : endsOutside y = true) (hz : opensOutside z = true) :
    InnerWord n (y ++ s ++ z) := by
  intro y' z'
  have hassoc : y' ++ (y ++ s ++ z) ++ z' = y' ++ y ++ s ++ (z ++ z') := by
    simp only [String.append_assoc]
  rw [hassoc]
  exact h _ _ (endsOutside_append hy) (opensOutside_append hz)

theorem InnerWord.append (h : InnerWord n s) : InnerWord n (s ++ z) := by
  intro y z'
  have hassoc : y ++ (s ++ z) ++ z' = y ++ s ++ (z ++ z') := by simp only [String.append_assoc]
  rw [hassoc]
  exact h y _

theorem InnerWord.prepend (h : InnerWord n s) : InnerWord n (y ++ s) := by
  intro y' z
  rw [← String.append_assoc]
  exact h _ z

theorem InnerWord.mentions (h : InnerWord n s) : mentions s n = true := by
  have hs := h "" ""
  rwa [String.empty_append, String.append_empty] at hs

end ApiSurface.Text
