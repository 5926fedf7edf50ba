import ApiSurface.Proofs.Catalog.Properties
import ApiSurface.Proofs.Document.Notes
import ApiSurface.Proofs.Reading
import Mathlib.Algebra.Order.BigOperators.Group.List
import Mathlib.Algebra.Order.Group.Nat

/-!
# Expansion of query types

A query type stands for properties if it is an object type, an interface or a class, an alias of
such a type or an intersection of such types. Aliases can refer to each other without end, so that a
document follows them, and the members of intersections, only to a certain depth. It never expands a
type to a part of its properties.

* `Expands`: what a type stands for, and `ExpandsWithin` in a number of levels;
* **`expand_eq_some_iff`**: what is found with some fuel;
* `expands_iff`, `Expands.unique`: a type stands for one list of properties, in so many levels;
* `expand_eq_none_of_needs`: aliases and intersections that lead back to themselves;
* **`expand_or_note`**: a query type is expanded as it should, or a note says that it is not.
-/

namespace ApiSurface

namespace Document

/-! ## What types stand for -/

/-- The first property of each name. -/
def firstOfEach (ps : List Property) : List Property := ps.eraseDupsBy fun p q => p.name == q.name

/-- The properties that a type stands for: those of an object type, all properties of an interface or
class, those of the target of an alias, and the first of each name of the members of an
intersection. -/
inductive Expands (c : Catalog) : TypeExpr → List Property → Prop
  | object (ps : List Property) : Expands c (.object ps) ps
  | declared {name : String} {d : Declaration} {shape : ObjectShape} (hd : c.get? name = some d)
      (hbody : d.body = .interface shape ∨ d.body = .classType shape) :
      Expands c (.reference name []) (c.flattenedProperties name)
  | aliased {name : String} {d : Declaration} {target : TypeExpr} {params : List String}
      {ps : List Property} (hd : c.get? name = some d) (hbody : d.body = .alias target params)
      (h : Expands c target ps) : Expands c (.reference name []) ps
  | intersection {ms : List TypeExpr} (f : TypeExpr → List Property)
      (h : ∀ m ∈ ms, Expands c m (f m)) : Expands c (.intersection ms) (firstOfEach (ms.flatMap f))

/-- The same in a number of levels. An alias is a level above its target and an intersection a level
above its members, so that a nesting of `n` of them takes `n + 1` levels. -/
inductive ExpandsWithin (c : Catalog) : Nat → TypeExpr → List Property → Prop
  | object {n : Nat} (ps : List Property) : ExpandsWithin c (n + 1) (.object ps) ps
  | declared {n : Nat} {name : String} {d : Declaration} {shape : ObjectShape}
      (hd : c.get? name = some d)
      (hbody : d.body = .interface shape ∨ d.body = .classType shape) :
      ExpandsWithin c (n + 1) (.reference name []) (c.flattenedProperties name)
  | aliased {n : Nat} {name : String} {d : Declaration} {target : TypeExpr} {params : List String}
      {ps : List Property} (hd : c.get? name = some d) (hbody : d.body = .alias target params)
      (h : ExpandsWithin c n target ps) : ExpandsWithin c (n + 1) (.reference name []) ps
  | intersection {n : Nat} {ms : List TypeExpr} (f : TypeExpr → List Property)
      (h : ∀ m ∈ ms, ExpandsWithin c n m (f m)) :
      ExpandsWithin c (n + 1) (.intersection ms) (firstOfEach (ms.flatMap f))

variable {c : Catalog} {t : TypeExpr} {ps qs : List Property}

/-! ## Levels -/

theorem ExpandsWithin.expands {n : Nat} (h : ExpandsWithin c n t ps) : Expands c t ps := by
  induction h with
  | object ps => exact .object ps
  | declared hd hbody => exact .declared hd hbody
  | aliased hd hbody _ ih => exact .aliased hd hbody ih
  | intersection f _ ih => exact .intersection f ih

theorem ExpandsWithin.mono {m n : Nat} (h : ExpandsWithin c m t ps) (hmn : m ≤ n) :
    ExpandsWithin c n t ps := by
  induction h generalizing n with
  | object ps =>
    obtain ⟨n, rfl⟩ := Nat.exists_eq_add_of_le' hmn
    exact .object ps
  | declared hd hbody =>
    obtain ⟨n, rfl⟩ := Nat.exists_eq_add_of_le' hmn
    exact .declared hd hbody
  | aliased hd hbody _ ih =>
    obtain ⟨n, rfl⟩ := Nat.exists_eq_add_of_le' (Nat.le_of_add_left_le hmn)
    exact .aliased hd hbody (ih (Nat.le_of_succ_le_succ hmn))
  | intersection f _ ih =>
    obtain ⟨n, rfl⟩ := Nat.exists_eq_add_of_le' (Nat.le_of_add_left_le hmn)
    exact .intersection f fun m hm => ih m hm (Nat.le_of_succ_le_succ hmn)

theorem expands_iff : Expands c t ps ↔ ∃ n, ExpandsWithin c n t ps := by
  refine ⟨fun h => ?_, fun ⟨n, h⟩ => h.expands⟩
  induction h with
  | object ps => exact ⟨1, .object ps⟩
  | declared hd hbody => exact ⟨1, .declared hd hbody⟩
  | aliased hd hbody _ ih =>
    obtain ⟨n, h⟩ := ih
    exact ⟨n + 1, .aliased hd hbody h⟩
  | @intersection ms f _ ih =>
    choose! k hk using ih
    -- each member has its own number of levels, and their sum is enough for all of them
    have hle : ∀ m ∈ ms, k m ≤ (ms.map k).sum :=
      fun m hm => List.le_sum_of_mem (List.mem_map_of_mem hm)
    exact ⟨_, .intersection f fun m hm => (hk m hm).mono (hle m hm)⟩

/-! ## What is found -/

/-- A name has been seen if a property that is kept has it. -/
theorem firstOfName_eq_loop (ps qs : List Property) :
    qs.reverse ++ Catalog.firstOfName ps (qs.map (·.name)) =
      List.eraseDupsBy.loop (fun p q : Property => p.name == q.name) ps qs := by
  induction ps generalizing qs with
  | nil => rw [Catalog.firstOfName, List.append_nil, List.eraseDupsBy.loop]
  | cons p ps ih =>
    have hseen : (qs.map (·.name)).contains p.name = qs.any fun q => p.name == q.name := by
      rw [List.contains_eq_any_beq, List.any_map]
      rfl
    rw [Catalog.firstOfName, List.eraseDupsBy.loop, hseen]
    cases qs.any fun q => p.name == q.name with
    | true => exact ih qs
    | false =>
      have hkept := ih (p :: qs)
      rw [List.reverse_cons, List.append_assoc] at hkept
      exact hkept

theorem firstOfName_eq (ps : List Property) : Catalog.firstOfName ps [] = firstOfEach ps :=
  firstOfName_eq_loop ps []

theorem expandsWithin_of_expand {n : Nat} (h : expand c n t = some ps) :
    ExpandsWithin c n t ps := by
  induction n generalizing t ps with
  | zero => cases h
  | succ n ih =>
    cases t with
    | object qs =>
      cases h
      exact .object _
    | reference name arguments =>
      cases arguments with
      | cons a rest => cases h
      | nil =>
        rw [expand] at h
        cases hd : c.get? name with
        | none =>
          rw [hd] at h
          cases h
        | some d =>
          rw [hd, Option.map_some] at h
          rcases hbody : d.body with members | shape | shape | ⟨target, params⟩
          · rw [hbody] at h
            cases h
          · rw [hbody] at h
            cases h
            exact .declared hd (Or.inl hbody)
          · rw [hbody] at h
            cases h
            exact .declared hd (Or.inr hbody)
          · rw [hbody] at h
            exact .aliased hd hbody (ih h)
    | intersection ms =>
      rw [expand] at h
      obtain ⟨pss, hpss, rfl⟩ := Option.map_eq_some_iff.mp h
      let found : TypeExpr → List Property := fun m => (expand c n m).getD []
      have hfound : ∀ m ∈ ms, expand c n m = some (found m) := by
        intro m hm
        obtain ⟨qs, hqs⟩ := exists_of_mapM hpss hm
        simp [found, hqs]
      rw [mapM_eq_some_map hfound] at hpss
      rw [firstOfName_eq, ← Option.some.inj hpss, ← List.flatMap_def]
      exact .intersection found fun m hm => ih (hfound m hm)
    | _ => cases h

/-- **What is found** is what the type stands for in as many levels as there is fuel. -/
theorem expand_eq_some_iff {n : Nat} : expand c n t = some ps ↔ ExpandsWithin c n t ps := by
  refine ⟨expandsWithin_of_expand, fun h => ?_⟩
  induction h with
  | object ps => rfl
  | declared hd hbody =>
    rw [expand, hd, Option.map_some]
    rcases hbody with hbody | hbody
    · rw [hbody]
    · rw [hbody]
  | aliased hd hbody _ ih =>
    rw [expand, hd, Option.map_some, hbody]
    exact ih
  | intersection f _ ih =>
    rw [expand, mapM_eq_some_map ih, Option.map_some, firstOfName_eq, List.flatMap_def]

/-- A type stands for one list of properties. -/
theorem Expands.unique (hps : Expands c t ps) (hqs : Expands c t qs) : ps = qs := by
  obtain ⟨m, hm⟩ := expands_iff.mp hps
  obtain ⟨n, hn⟩ := expands_iff.mp hqs
  have hps := expand_eq_some_iff.mpr (hm.mono (Nat.le_max_left m n))
  have hqs := expand_eq_some_iff.mpr (hn.mono (Nat.le_max_right m n))
  exact Option.some.inj (hps.symm.trans hqs)

/-! ## Types that need themselves -/

/-- What a type is expanded by: the target of an alias, the members of an intersection. -/
inductive Needs (c : Catalog) : TypeExpr → TypeExpr → Prop
  | target {name : String} {d : Declaration} {target : TypeExpr} {params : List String}
      (hd : c.get? name = some d) (hbody : d.body = .alias target params) :
      Needs c target (.reference name [])
  | member {ms : List TypeExpr} {m : TypeExpr} (hm : m ∈ ms) : Needs c m (.intersection ms)

theorem Expands.acc (h : Expands c t ps) : Acc (Needs c) t := by
  induction h with
  | object ps => exact .intro _ nofun
  | declared hd hbody =>
    refine .intro _ fun u hu => ?_
    cases hu with
    | target hd' halias =>
      rw [Option.some.inj (hd.symm.trans hd'), halias] at hbody
      rcases hbody with hbody | hbody <;> cases hbody
  | aliased hd hbody _ ih =>
    refine .intro _ fun u hu => ?_
    cases hu with
    | target hd' halias =>
      rw [← Option.some.inj (hd.symm.trans hd'), hbody] at halias
      cases halias
      exact ih
  | intersection f _ ih =>
    refine .intro _ fun u hu => ?_
    cases hu with
    | member hm => exact ih u hm

theorem not_self_of_acc {α : Type} {r : α → α → Prop} {a : α} (h : Acc r a) : ¬ r a a := by
  induction h with
  | intro a _ ih => exact fun haa => ih a haa haa

/-- **A type that needs itself stands for nothing**, so that it is not found with any fuel. -/
theorem expand_eq_none_of_needs (h : Relation.TransGen (Needs c) t t) (n : Nat) :
    expand c n t = none := by
  rw [Option.eq_none_iff_forall_ne_some]
  intro ps hps
  exact not_self_of_acc (expandsWithin_of_expand hps).expands.acc.transGen h

example :
    let c := (Catalog.build [⟨⟨"A", none, true,
      .alias (.intersection [.object [], .reference "A" []]) []⟩, "a.ts"⟩]).value
    expand c (maxNesting + 1) (.reference "A" []) = none := by
  rfl

/-- **A query type is expanded as it should be, or not at all.** What is found for a type is what it
stands for, which is one list of properties. It is found exactly if aliases and intersections are
nested no deeper than they may be, and exactly if it is not found there is one note that says so. -/
theorem expand_or_note (c : Catalog) (t : TypeExpr) :
    (∀ ps, expand c (maxNesting + 1) t = some ps → Expands c t ps) ∧
      (∀ ps qs, Expands c t ps → Expands c t qs → ps = qs) ∧
      (∀ ps, expand c (maxNesting + 1) t = some ps ↔ ExpandsWithin c (maxNesting + 1) t ps) ∧
      (∀ ps, Expands c t ps ↔ ∃ n, ExpandsWithin c n t ps) ∧
      ∀ (subject name : String) (optional : Bool),
        (wholeQueryParameters c subject ⟨name, t, optional⟩).notes.filter
            (fun n => n.code = .unexpandableQuery) =
          if (expand c (maxNesting + 1) t).isSome then []
          else [Note.unexpandableQuery subject t.text name] := by
  refine ⟨fun ps h => (expandsWithin_of_expand h).expands, fun ps qs => Expands.unique,
    fun ps => expand_eq_some_iff, fun ps => expands_iff, fun subject name optional => ?_⟩
  obtain ⟨rest, hrest, hnotes⟩ := notes_wholeQueryParameters c subject ⟨name, t, optional⟩
  rw [hnotes, List.filter_append, hrest.filter_eq_nil (by decide), List.append_nil]
  split_ifs
  · rfl
  · rfl

end Document

end ApiSurface
