import ApiSurface.Proofs.Client.Namespaces
import ApiSurface.Proofs.Client.Url

/-!
# Placeholders that nothing binds

A placeholder begins wherever the first character of a name stands behind a colon, and its name is
as long as it can be. A client should note each placeholder of a request that no path parameter of
the request binds. It does so for requests with path parameters and is silent about all others.

* `fieldAt?`, `placeholderNames`, `fields_eq`: placeholders place by place, as cutting finds them;
* `fields_tickedTemplate`: escaping backticks changes none of their names;
* `unboundNotes`: what is to be noted on a request;
* **`notes_emit`**: what is noted, and when that is all there is to note;
* `not_noted_plain`: a placeholder that is left out.
-/

namespace ApiSurface

open ApiSurface.Client ApiSurface.Route ApiSurface.Text

/-! ## Places of placeholders -/

namespace Route

/-- The name of the placeholder that a text begins with, if it begins with one. -/
def fieldAt? : List Char → Option String
  | ':' :: c :: cs =>
    if isIdentStart c then some (String.ofList (c :: cs.takeWhile isIdentPart)) else none
  | _ => none

/-- The names of the placeholders of a template, one for each place where one begins. -/
def placeholderNames (template : String) : List String := template.toList.tails.filterMap fieldAt?

theorem fieldAt?_of_ne {c : Char} (h : c ≠ ':') (cs : List Char) : fieldAt? (c :: cs) = none := by
  unfold fieldAt?
  split
  · next heq => exact absurd (List.cons.inj heq).1 h
  · rfl

/-- No placeholder begins in a text without colons. -/
theorem filterMap_tails_append {l : List Char} (h : ':' ∉ l) (r : List Char) :
    (l ++ r).tails.filterMap fieldAt? = r.tails.filterMap fieldAt? := by
  induction l with
  | nil => rfl
  | cons c l ih =>
    rw [List.mem_cons, not_or] at h
    rw [List.cons_append, List.tails_cons, List.filterMap_cons, fieldAt?_of_ne (Ne.symm h.1), ih h.2]

/-- The name of a placeholder holds no colon. -/
theorem colon_notMem {c : Char} (hstart : isIdentStart c = true) (cs : List Char) :
    ':' ∉ c :: cs.takeWhile isIdentPart := by
  rw [List.mem_cons, not_or]
  refine ⟨?_, fun hmem => absurd (List.mem_takeWhile_imp hmem) (by decide)⟩
  rintro rfl
  exact absurd hstart (by decide)

/-- Cutting finds a placeholder at each place where one begins. -/
theorem filterMap_cut (skip : Nat) (cs : List Char) :
    (cut skip cs).filterMap Piece.field? = (cs.drop skip).tails.filterMap fieldAt? := by
  fun_induction cut skip cs with
  | case1 skip => simp [fieldAt?]
  | case2 skip c cs ih => exact ih
  | case3 c cs hstart ih =>
    have hrest := filterMap_tails_append (colon_notMem hstart cs) (cs.dropWhile isIdentPart)
    rw [List.cons_append, List.takeWhile_append_dropWhile] at hrest
    rw [List.drop_succ_cons, drop_takeWhile] at ih
    rw [List.drop_zero, List.filterMap_cons, List.tails_cons, List.filterMap_cons, fieldAt?,
      if_pos hstart, ih, hrest]
    rfl
  | case4 c cs hstart ih =>
    rw [List.drop_zero] at ih ⊢
    rw [List.filterMap_cons, List.tails_cons, List.filterMap_cons, fieldAt?, if_neg hstart, ← ih]
    rfl
  | case5 c cs hcolon ih =>
    have hnone : fieldAt? (c :: cs) = none := by
      unfold fieldAt?
      split
      · next heq =>
        obtain ⟨rfl, rfl⟩ := List.cons.inj heq
        exact absurd rfl (hcolon _ _ rfl)
      · rfl
    rw [List.drop_zero] at ih ⊢
    rw [List.filterMap_cons, List.tails_cons, List.filterMap_cons, hnone, ← ih]
    rfl

/-- **The names that cutting finds** are those of all places where a placeholder begins. -/
theorem fields_eq (t : String) : fields t = placeholderNames t := filterMap_cut 0 t.toList

theorem Split.filterMap_pieces (s : Split) :
    s.pieces.filterMap Piece.field? = s.later.map fun p => String.ofList p.1 := by
  have hliteral : ∀ cs : List Char, (cs.map Piece.literal).filterMap Piece.field? = [] := by
    intro cs
    rw [List.filterMap_map, List.filterMap_eq_nil_iff]
    exact fun _ _ => rfl
  have hpiece : ∀ p : List Char × List Char,
      (Piece.field p.1 :: p.2.map Piece.literal).filterMap Piece.field? = [String.ofList p.1] :=
    fun p => congrArg (String.ofList p.1 :: ·) (hliteral p.2)
  rw [Split.pieces, List.filterMap_append, hliteral, List.filterMap_flatMap, List.nil_append]
  simp only [hpiece]
  exact List.map_eq_flatMap.symm

end Route

namespace Client

/-- Escaping backticks changes no name. -/
theorem fields_tickedTemplate (t : String) : fields (tickedTemplate t) = fields t := by
  obtain ⟨s, hs⟩ := exists_cuts t
  rw [fields, fields, pieces_tickedTemplate hs, pieces_eq hs, Split.filterMap_pieces,
    Split.filterMap_pieces, Split.ticked, List.map_map]
  rfl

/-! ## Notes -/

/-- What is to be noted on a request of a controller: each place of a placeholder that no path
parameter of the request binds. -/
def unboundNotes (x : Controller × Request) : List Note :=
  ((placeholderNames x.2.template).filter fun f => ∀ p ∈ x.2.params, p.property ≠ f).map fun f =>
    Note.unmatchedPlaceholder (x.1.name ++ "." ++ x.2.name) f x.2.template

theorem unboundFields_eq (params : List FieldBinding) (t : String) :
    unboundFields params t =
      (placeholderNames t).filter fun f => ∀ p ∈ params, p.property ≠ f := by
  rw [unboundFields, fields_tickedTemplate, fields_eq]
  refine List.filter_congr fun f _ => ?_
  rw [Bool.eq_iff_iff]
  simp

theorem urlNotes_eq (k : Controller) (r : Request) :
    urlNotes k.name r = if r.params = [] then [] else unboundNotes (k, r) := by
  simp only [urlNotes, unboundFields_eq, List.isEmpty_iff, unboundNotes]

/-- A request without path parameters has nothing noted where its template has no placeholder. -/
theorem unboundNotes_eq_nil_iff {x : Controller × Request} (h : x.2.params = []) :
    unboundNotes x = [] ↔ placeholderNames x.2.template = [] := by
  rw [unboundNotes, List.map_eq_nil_iff, h, List.filter_eq_self.mpr]
  exact fun f _ => decide_eq_true nofun

theorem namespaceNotes_eq (ks : List Controller) :
    namespaceNotes ks = (rendered ks).flatMap fun x => urlNotes x.1.name x.2 := by
  rw [namespaceNotes, groupByNamespace_eq, List.flatMap_map, rendered, List.flatMap_assoc]
  refine List.flatMap_congr fun name _ => ?_
  rw [renderedIn_eq, requestsOf, List.flatMap_assoc]
  refine List.flatMap_congr fun k _ => ?_
  rw [List.flatMap_map]

/-- Requests without path parameters are passed over. -/
theorem flatMap_urlNotes (xs : List (Controller × Request)) :
    (xs.flatMap fun x => urlNotes x.1.name x.2) =
      (xs.filter fun x => x.2.params ≠ []).flatMap unboundNotes := by
  induction xs with
  | nil => rfl
  | cons x xs ih =>
    rw [List.flatMap_cons, ih, urlNotes_eq]
    by_cases hparams : x.2.params = []
    · rw [if_pos hparams, List.filter_cons_of_neg (by simp [hparams]), List.nil_append]
    · rw [if_neg hparams, List.filter_cons_of_pos (by simp [hparams]), List.flatMap_cons]

/-- What some elements contribute is what all contribute if the others contribute nothing. -/
theorem flatMap_filter_eq_iff {α β : Type} (p : α → Bool) (f : α → List β) (xs : List α) :
    (xs.filter p).flatMap f = xs.flatMap f ↔ ∀ x ∈ xs, p x = false → f x = [] := by
  induction xs with
  | nil => simp
  | cons x xs ih =>
    rw [List.flatMap_cons, List.forall_mem_cons, ← ih]
    cases hx : p x with
    | true =>
      rw [List.filter_cons_of_pos hx, List.flatMap_cons, List.append_cancel_left_eq]
      exact ⟨fun h => ⟨nofun, h⟩, And.right⟩
    | false =>
      rw [List.filter_cons_of_neg (Bool.eq_false_iff.mp hx)]
      constructor
      · intro h
        -- what is selected is no longer than the rest, so that nothing can come before the rest
        have hle := ((List.filter_sublist (p := p) (l := xs)).flatMap f).length_le
        have hnil : f x = [] := by
          rw [h, List.length_append] at hle
          exact List.eq_nil_of_length_eq_zero (by omega)
        rw [hnil, List.nil_append] at h
        exact ⟨fun _ => hnil, h⟩
      · rintro ⟨hnil, h⟩
        rw [h, hnil rfl, List.nil_append]

/-- **What a client notes on placeholders.** The notes are those on the requests with path
parameters, in the order of their functions: one for each place where a placeholder begins that no
path parameter binds, in the order of the template. They are all that is to be noted exactly if the
templates of the other requests have no placeholders. -/
theorem notes_emit (s : ClientSettings) (ks : List Controller) (catalog : Catalog) :
    functionText s ks = render s.format.indent (spaced ((namespaceNames ks).map fun name =>
      namespaceBlock s name (renderedIn ks name))) ∧
    (emit s ks catalog).notes =
      ((rendered ks).filter fun x => x.2.params ≠ []).flatMap unboundNotes ∧
    ((emit s ks catalog).notes = (rendered ks).flatMap unboundNotes ↔
      ∀ x ∈ requestsOf ks, x.2.params = [] → placeholderNames x.2.template = []) := by
  have hnotes : (emit s ks catalog).notes =
      ((rendered ks).filter fun x => x.2.params ≠ []).flatMap unboundNotes :=
    (namespaceNotes_eq ks).trans (flatMap_urlNotes (rendered ks))
  refine ⟨functionText_eq s ks, hnotes, ?_⟩
  rw [hnotes, flatMap_filter_eq_iff]
  constructor
  · intro h x hx hparams
    have hnone := h x ((perm_rendered ks).mem_iff.mpr hx) (by simp [hparams])
    exact (unboundNotes_eq_nil_iff hparams).mp hnone
  · intro h x hx hparams
    have hnil : x.2.params = [] := by simpa using hparams
    exact (unboundNotes_eq_nil_iff hnil).mpr (h x ((perm_rendered ks).mem_iff.mp hx) hnil)

/-- A controller whose only request has a placeholder and no path parameters. -/
def plainController : Controller :=
  ⟨"users", "users.controller.ts", "/users", none,
    [⟨"find", none, "/users/:id", .get, [], none, none, .keyword .string⟩]⟩

/-- Its placeholder is bound by nothing, and a client notes nothing. -/
theorem not_noted_plain :
    let s : ClientSettings := ⟨"client/api.ts", none, none, none, none, .standard⟩
    let notes := (emit s [plainController] .empty).notes
    (rendered [plainController]).flatMap unboundNotes =
        [Note.unmatchedPlaceholder "users.find" "id" "/users/:id"] ∧
      notes = [] ∧ notes ≠ (rendered [plainController]).flatMap unboundNotes := by
  decide +kernel

end Client

end ApiSurface
