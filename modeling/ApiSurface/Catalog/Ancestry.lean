import ApiSurface.Catalog.Dependence

/-!
# Inheritance

What lies above the declarations of a catalog, breadth first.

* `Ascent`, `Ascent.next?`, `Ascent.run`: looking at one name after the other, and what is met;
* `Catalog.ancestors`: what is met from the supertypes of a name, the name itself left out;
* `Catalog.spread`: the declarations met along given links, round by round;
* `Catalog.ownProperties`, `flattenedProperties`: properties without and with inherited ones.
-/

namespace ApiSurface

/-! ## Ascents -/

/-- Where an ascent along supertypes stands: the names that wait to be looked at, those looked at,
declared or not, and the declarations met. -/
structure Ascent where
  queue : List String
  visited : List String
  met : List Declaration

namespace Ascent

/-- Look at the first name that waits. One that is declared and new is met, and the names of its
supertypes wait behind all others. -/
def next? (c : Catalog) : Ascent → Option Ascent
  | ⟨[], _, _⟩ => none
  | ⟨n :: queue, visited, met⟩ =>
    if visited.contains n then some ⟨queue, visited, met⟩
    else match c.get? n with
      | none => some ⟨queue, n :: visited, met⟩
      | some d => some ⟨queue ++ d.supertypes, n :: visited, met ++ [d]⟩

/-- The number of declared names that an ascent has not looked at. -/
def missing (c : Catalog) (a : Ascent) : Nat := Search.missing c ⟨a.queue, a.visited⟩

theorem missing_undeclared {c : Catalog} {n : String} (hn : c.get? n = none)
    (queue visited : List String) (met : List Declaration) :
    missing c ⟨queue, n :: visited, met⟩ = missing c ⟨queue, visited, met⟩ := by
  have hne : ∀ m ∈ c.names, (m == n) = false := by
    rintro m hm
    refine beq_eq_false_iff_ne.mpr ?_
    rintro rfl
    exact Table.entry?_eq_none_iff.mp (Option.map_eq_none_iff.mp hn) hm
  unfold missing Search.missing
  refine congrArg List.length (List.filter_congr fun m hm => ?_)
  rw [List.contains_cons, hne m hm, Bool.false_or]

/-- A step looks at one more declared name, or else leaves fewer names to wait. -/
theorem next?_lt {c : Catalog} {a b : Ascent} (h : a.next? c = some b) :
    Prod.Lex (· < ·) (· < ·) (b.missing c, b.queue.length) (a.missing c, a.queue.length) := by
  obtain ⟨queue, visited, met⟩ := a
  cases queue with
  | nil => cases h
  | cons n queue =>
    unfold next? at h
    dsimp only at h
    by_cases hn : visited.contains n
    · rw [if_pos hn] at h
      cases h
      exact .right _ (Nat.lt_succ_self _)
    · rw [if_neg hn] at h
      cases hd : c.get? n with
      | none =>
        rw [hd] at h
        cases h
        have hmissing := missing_undeclared hd (n :: queue) visited met
        rw [← hmissing]
        exact .right _ (Nat.lt_succ_self _)
      | some d =>
        rw [hd] at h
        cases h
        have hnew : n ∉ visited := by simpa using hn
        exact .left _ _ (Search.missing_find_lt (Search.mem_names_of_get? hd) hnew _ _)

/-- What an ascent has met when no name waits. -/
def run (c : Catalog) (a : Ascent) : List Declaration :=
  match _h : a.next? c with
  | none => a.met
  | some b => run c b
termination_by (a.missing c, a.queue.length)
decreasing_by exact next?_lt _h

end Ascent

namespace Catalog

/-! ## Rounds -/

/-- The declarations of the names that are new, each once, in the order of the names. -/
def fresh (c : Catalog) : (names seen : List String) → List Declaration
  | [], _ => []
  | n :: ns, seen =>
    if seen.contains n then fresh c ns seen
    else match c.get? n with
      | none => fresh c ns seen
      | some d => d :: fresh c ns (n :: seen)

/-- Breadth first: the declarations of the given names, then those that they link to, and so on;
what has been seen is left out. The fuel bounds the number of rounds. -/
def spread (c : Catalog) (links : Declaration → List String) :
    (fuel : Nat) → (names seen : List String) → List Declaration
  | 0, _, _ => []
  | fuel + 1, names, seen =>
    match c.fresh names seen with
    | [] => []
    | ring =>
      ring ++ spread c links fuel (ring.flatMap links) (seen ++ ring.map (·.name))

/-- Enough rounds to reach everything: each round meets a new declaration. -/
def rounds (c : Catalog) : Nat := c.entries.length

/-- The declarations above a name, nearest first, each once; not the name itself. -/
def ancestors (c : Catalog) (name : String) : List Declaration :=
  match c.get? name with
  | none => []
  | some d => Ascent.run c ⟨d.supertypes, [name], []⟩

/-! ## Properties -/

/-- The names of the properties that ancestors of a name declare. -/
def inheritedNames (c : Catalog) (name : String) : List String :=
  (c.ancestors name).flatMap fun a => a.properties.map (·.name)

/-- The properties of a declaration that no ancestor declares. -/
def ownProperties (c : Catalog) (d : Declaration) : List Property :=
  d.properties.filter fun p => !(c.inheritedNames d.name).contains p.name

/-- The first property of each name that has not been seen. -/
def firstOfName : (ps : List Property) → (seen : List String) → List Property
  | [], _ => []
  | p :: ps, seen =>
    if seen.contains p.name then firstOfName ps seen else p :: firstOfName ps (p.name :: seen)

/-- The properties of a name with all that it inherits; the nearest declaration of a property
counts. -/
def flattenedProperties (c : Catalog) (name : String) : List Property :=
  match c.get? name with
  | none => []
  | some d => firstOfName ((d :: c.ancestors name).flatMap Declaration.properties) []

end Catalog

end ApiSurface
