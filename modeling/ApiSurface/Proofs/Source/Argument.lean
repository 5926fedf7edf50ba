import ApiSurface.Source.SourceUnit

/-!
# Induction over decorator arguments

* `Argument.induction`: what passes from items and fields to lists and objects holds of every
  argument.
-/

namespace ApiSurface

/-- What passes from items and fields to lists and objects holds of every argument. -/
@[elab_as_elim, induction_eliminator]
theorem Argument.induction {p : Argument → Prop}
    (string : ∀ s, p (.string s)) (number : ∀ n, p (.number n)) (boolean : ∀ b, p (.boolean b))
    (list : ∀ items, (∀ a ∈ items, p a) → p (.list items))
    (expression : ∀ source, p (.expression source))
    (object : ∀ fields : List (String × Argument), (∀ f ∈ fields, p f.2) → p (.object fields))
    (a : Argument) : p a := by
  refine @Argument.rec p (fun items => ∀ a ∈ items, p a) (fun fields => ∀ f ∈ fields, p f.2)
    (fun f => p f.2) string number boolean list expression object ?_ ?_ ?_ ?_ (fun _ _ h => h) a
  · exact fun a ha => absurd ha List.not_mem_nil
  · intro a items ha hitems b hb
    rcases List.mem_cons.mp hb with rfl | hb
    · exact ha
    · exact hitems b hb
  · exact fun f hf => absurd hf List.not_mem_nil
  · intro f fields hf hfields g hg
    rcases List.mem_cons.mp hg with rfl | hg
    · exact hf
    · exact hfields g hg

end ApiSurface
