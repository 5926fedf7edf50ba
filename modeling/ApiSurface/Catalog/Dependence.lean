import ApiSurface.Catalog.Basic

/-!
# Dependence

All declarations that given names depend on, found by looking at one name after the other.

* `Search`, `Search.next?`: where a search stands, and one step of it;
* `Search.next?_lt`: a step finds a name, or else leaves fewer to look at;
* `Search.run`: what a search finds in the end;
* `Catalog.places`, `closure`: the declarations that given names depend on, by their places.
-/

namespace ApiSurface

/-- Where a search stands: the names still to look at, the next one first, and those found. -/
structure Search where
  pending : List String
  found : List String
deriving DecidableEq, Repr

namespace Search

/-- Look at the next name. One that is declared and new is found, and the names that its declaration
links to are looked at before all others, the last of them first. -/
def next? (c : Catalog) : Search → Option Search
  | ⟨[], _⟩ => none
  | ⟨n :: pending, found⟩ =>
    match c.get? n with
    | none => some ⟨pending, found⟩
    | some d =>
      if found.contains n then some ⟨pending, found⟩
      else some ⟨d.links.reverse ++ pending, n :: found⟩

/-- The number of declared names that are not found yet. -/
def missing (c : Catalog) (s : Search) : Nat :=
  (c.names.filter fun n => !s.found.contains n).length

theorem mem_names_of_get? {c : Catalog} {n : String} {d : Declaration} (h : c.get? n = some d) :
    n ∈ c.names := by
  obtain ⟨e, he, -⟩ := Option.map_eq_some_iff.mp h
  exact List.mem_map.mpr ⟨e, Table.entry?_eq_some_iff.mp he⟩

theorem missing_find_lt {c : Catalog} {n : String} (hn : n ∈ c.names) {found : List String}
    (hfound : n ∉ found) (pending pending' : List String) :
    missing c ⟨pending', n :: found⟩ < missing c ⟨pending, found⟩ := by
  have hfilter : (c.names.filter fun m => !(n :: found).contains m) =
      (c.names.filter fun m => !found.contains m).filter fun m => !(m == n) := by
    rw [List.filter_filter]
    refine List.filter_congr fun m _ => ?_
    rw [List.contains_cons, Bool.not_or]
  unfold missing
  rw [hfilter, List.length_filter_lt_length_iff_exists]
  exact ⟨n, List.mem_filter.mpr ⟨hn, by simpa using hfound⟩, by simp⟩

/-- A step finds one more declared name, or else leaves one name fewer to look at. -/
theorem next?_lt {c : Catalog} {s t : Search} (h : s.next? c = some t) :
    Prod.Lex (· < ·) (· < ·) (t.missing c, t.pending.length) (s.missing c, s.pending.length) := by
  obtain ⟨pending, found⟩ := s
  cases pending with
  | nil => cases h
  | cons n pending =>
    unfold next? at h
    dsimp only at h
    cases hn : c.get? n with
    | none =>
      rw [hn] at h
      cases h
      exact .right _ (Nat.lt_succ_self _)
    | some d =>
      rw [hn] at h
      dsimp only at h
      by_cases hfound : found.contains n
      · rw [if_pos hfound] at h
        cases h
        exact .right _ (Nat.lt_succ_self _)
      · rw [if_neg hfound] at h
        cases h
        exact .left _ _ (missing_find_lt (mem_names_of_get? hn) (by simpa using hfound) _ _)

/-- What a search has found when nothing is left to look at. -/
def run (c : Catalog) (s : Search) : List String :=
  match _h : s.next? c with
  | none => s.found
  | some t => run c t
termination_by (s.missing c, s.pending.length)
decreasing_by exact next?_lt _h

end Search

namespace Catalog

/-- The places of what a search from given names finds, in increasing order. -/
def places (c : Catalog) (roots : List String) : List Nat :=
  ((Search.run c ⟨roots.reverse, []⟩).filterMap fun n => c.index.lookup n).mergeSort

/-- The declarations that given names depend on, in the order of the catalog. -/
def closure (c : Catalog) (roots : List String) : List Declaration :=
  (c.places roots).filterMap fun place => c.entries[place]?.map (·.declaration)

end Catalog

end ApiSurface
