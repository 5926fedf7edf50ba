import ApiSurface.Catalog.Dependence
import ApiSurface.Proofs.Catalog.Reach

/-!
# What declarations depend on

A search ends, and in the end it has found the declared names that a path of links leads to from
where it started.

* `Search.wellFounded_next?`: no search goes on for ever;
* `Catalog.Reached`: a name is reached from given ones along links;
* `Searched`: what holds of a search at any time, kept by one step (`Searched.next?`) and so true in
  the end (`Searched.mem_run`);
* `Catalog.pairwise_places`: the places of what is found, sorted and each once;
* **`Catalog.closure_sublist`**, **`mem_closure`**: the declarations that names depend on are those
  reached, in the order of the catalog.
-/

namespace ApiSurface

/-! ## Searches end -/

/-- **No search goes on for ever**: each step finds one more declared name, or else leaves one name
fewer to look at. -/
theorem Search.wellFounded_next? (c : Catalog) :
    WellFounded fun t s : Search => s.next? c = some t :=
  Subrelation.wf Search.next?_lt
    (InvImage.wf (fun s : Search => (s.missing c, s.pending.length))
      (Prod.lex Nat.lt_wfRel Nat.lt_wfRel).wf)

theorem Search.pending_of_next?_eq_none {c : Catalog} {s : Search} (h : s.next? c = none) :
    s.pending = [] := by
  obtain ⟨pending, found⟩ := s
  cases pending with
  | nil => rfl
  | cons n pending =>
    unfold next? at h
    dsimp only at h
    cases hn : c.get? n with
    | none => rw [hn] at h; cases h
    | some d => rw [hn] at h; dsimp only at h; split_ifs at h

namespace Catalog

variable {c : Catalog} {roots : List String}

/-- A declared name is one of the given names or is reached from one of them along links. -/
def Reached (c : Catalog) (roots : List String) (n : String) : Prop :=
  ∃ r ∈ roots, c.contains r = true ∧ Relation.ReflTransGen (c.Link Declaration.links) r n

theorem Reached.root {n : String} (hn : n ∈ roots) (hc : c.contains n = true) :
    c.Reached roots n :=
  ⟨n, hn, hc, .refl⟩

theorem Reached.link {d : Declaration} (h : c.Reached roots d.name) (hd : d ∈ c.declarations)
    {n : String} (hn : n ∈ d.links) (hc : c.contains n = true) : c.Reached roots n := by
  obtain ⟨r, hr, hcr, hpath⟩ := h
  exact ⟨r, hr, hcr, hpath.tail ⟨d, get?_name hd, hn, hc⟩⟩

theorem Reached.contains {n : String} (h : c.Reached roots n) : c.contains n = true := by
  obtain ⟨r, -, hcr, hpath⟩ := h
  cases hpath with
  | refl => exact hcr
  | tail _ hl => exact hl.choose_spec.2.2

/-- A set of names that has the declared ones of given names and what they link to has all that is
reached. -/
theorem Reached.mem {S : String → Prop} (hroots : ∀ n ∈ roots, c.contains n = true → S n)
    (hlinks : ∀ d ∈ c.declarations, S d.name → ∀ n ∈ d.links, c.contains n = true → S n)
    {n : String} (h : c.Reached roots n) : S n := by
  obtain ⟨r, hr, hcr, hpath⟩ := h
  induction hpath with
  | refl => exact hroots r hr hcr
  | tail _ hl ih =>
    obtain ⟨d, hd, hn, hc⟩ := hl
    obtain ⟨hdecl, rfl⟩ := get?_eq_some_iff.mp hd
    exact hlinks d hdecl ih _ hn hc

end Catalog

/-! ## What a search finds -/

open Catalog

variable {c : Catalog} {roots : List String}

/-- What holds of a search from given names at any time: all it has found is reached, all declared
names that it looks at would be, and of the given names and of those that what it has found links
to, it leaves none out. -/
structure Searched (c : Catalog) (roots : List String) (s : Search) : Prop where
  found : ∀ n ∈ s.found, c.Reached roots n
  pending : ∀ n ∈ s.pending, c.contains n = true → c.Reached roots n
  roots : ∀ n ∈ roots, c.contains n = true → n ∈ s.pending ∨ n ∈ s.found
  links : ∀ d ∈ c.declarations, d.name ∈ s.found → ∀ n ∈ d.links, c.contains n = true →
    n ∈ s.pending ∨ n ∈ s.found

theorem searched_start : Searched c roots ⟨roots.reverse, []⟩ where
  found _ hn := absurd hn List.not_mem_nil
  pending _ hn hc := .root (List.mem_reverse.mp hn) hc
  roots _ hn _ := Or.inl (List.mem_reverse.mpr hn)
  links _ _ hd := absurd hd List.not_mem_nil

/-- A name that is undeclared or found already can be dropped. -/
theorem Searched.drop {n : String} {pending found : List String}
    (h : Searched c roots ⟨n :: pending, found⟩) (hn : c.contains n = true → n ∈ found) :
    Searched c roots ⟨pending, found⟩ := by
  have hleft : ∀ m, c.contains m = true → m ∈ n :: pending ∨ m ∈ found →
      m ∈ pending ∨ m ∈ found := by
    intro m hc hm
    rcases hm with hm | hm
    · rcases List.mem_cons.mp hm with rfl | hm
      · exact Or.inr (hn hc)
      · exact Or.inl hm
    · exact Or.inr hm
  exact ⟨h.found, fun m hm => h.pending m (List.mem_cons_of_mem _ hm),
    fun m hm hc => hleft m hc (h.roots m hm hc),
    fun d hd hdf m hm hc => hleft m hc (h.links d hd hdf m hm hc)⟩

/-- A declared name is found, and what its declaration links to is looked at. -/
theorem Searched.find {d : Declaration} {pending found : List String}
    (h : Searched c roots ⟨d.name :: pending, found⟩) (hd : d ∈ c.declarations) :
    Searched c roots ⟨d.links.reverse ++ pending, d.name :: found⟩ := by
  have hreached : c.Reached roots d.name :=
    h.pending d.name List.mem_cons_self (contains_iff.mpr ⟨d, hd, rfl⟩)
  have hleft : ∀ m, m ∈ d.name :: pending ∨ m ∈ found →
      m ∈ d.links.reverse ++ pending ∨ m ∈ d.name :: found := by
    intro m hm
    rcases hm with hm | hm
    · rcases List.mem_cons.mp hm with rfl | hm
      · exact Or.inr List.mem_cons_self
      · exact Or.inl (List.mem_append_right _ hm)
    · exact Or.inr (List.mem_cons_of_mem _ hm)
  refine ⟨fun m hm => ?_, fun m hm hc => ?_, fun m hm hc => hleft m (h.roots m hm hc),
    fun e he hef m hm hc => ?_⟩
  · rcases List.mem_cons.mp hm with rfl | hm
    · exact hreached
    · exact h.found m hm
  · rcases List.mem_append.mp hm with hm | hm
    · exact hreached.link hd (List.mem_reverse.mp hm) hc
    · exact h.pending m (List.mem_cons_of_mem _ hm) hc
  · rcases List.mem_cons.mp hef with hed | hef
    · rw [eq_of_name_eq he hd hed] at hm
      exact Or.inl (List.mem_append_left _ (List.mem_reverse.mpr hm))
    · exact hleft m (h.links e he hef m hm hc)

/-- **One step.** -/
theorem Searched.next? {s t : Search} (h : Searched c roots s) (ht : s.next? c = some t) :
    Searched c roots t := by
  obtain ⟨pending, found⟩ := s
  cases pending with
  | nil => cases ht
  | cons n pending =>
    unfold Search.next? at ht
    dsimp only at ht
    cases hn : c.get? n with
    | none =>
      rw [hn] at ht
      cases ht
      refine h.drop fun hc => ?_
      rw [contains_eq_isSome_get?, hn] at hc
      cases hc
    | some d =>
      obtain ⟨hd, rfl⟩ := get?_eq_some_iff.mp hn
      rw [hn] at ht
      dsimp only at ht
      split_ifs at ht with hfound
      · cases ht
        exact h.drop fun _ => List.contains_iff_mem.mp hfound
      · cases ht
        exact h.find hd

/-- When nothing is left to look at, what is found is what is reached. -/
theorem Searched.mem_found {s : Search} (h : Searched c roots s) (hs : s.next? c = none)
    (n : String) : n ∈ s.found ↔ c.Reached roots n := by
  have hleft : ∀ {m}, m ∈ s.pending ∨ m ∈ s.found → m ∈ s.found := fun {m} hm =>
    hm.resolve_left (by rw [Search.pending_of_next?_eq_none hs]; exact List.not_mem_nil)
  refine ⟨h.found n, fun hn => ?_⟩
  exact hn.mem (fun m hm hc => hleft (h.roots m hm hc))
    fun d hd hdf m hm hc => hleft (h.links d hd hdf m hm hc)

/-- **All steps**: what a search finds in the end is what is reached. -/
theorem Searched.mem_run {s : Search} (h : Searched c roots s) (n : String) :
    n ∈ s.run c ↔ c.Reached roots n := by
  induction s using (Search.wellFounded_next? c).induction with
  | _ s ih =>
    rw [Search.run]
    split
    · next hs => exact h.mem_found hs n
    · next t ht => exact ih t ht (h.next? ht)

/-! ## In the order of the catalog -/

/-- No name is found twice. -/
theorem Search.nodup_run {s : Search} (h : s.found.Nodup) : (s.run c).Nodup := by
  induction s using (Search.wellFounded_next? c).induction with
  | _ s ih =>
    rw [Search.run]
    split
    · exact h
    · next t ht =>
      refine ih t ht ?_
      obtain ⟨pending, found⟩ := s
      cases pending with
      | nil => cases ht
      | cons n pending =>
        unfold Search.next? at ht
        dsimp only at ht
        cases hn : c.get? n with
        | none =>
          rw [hn] at ht
          cases ht
          exact h
        | some d =>
          rw [hn] at ht
          dsimp only at ht
          split_ifs at ht with hfound
          · cases ht
            exact h
          · cases ht
            exact List.nodup_cons.mpr ⟨fun hmem => hfound (List.contains_iff_mem.mpr hmem), h⟩

theorem Catalog.mem_places {place : ℕ} :
    place ∈ c.places roots ↔ ∃ n, c.nameAt? place = some n ∧ c.Reached roots n := by
  unfold places
  rw [List.mem_mergeSort, List.mem_filterMap]
  refine exists_congr fun n => ?_
  rw [searched_start.mem_run, c.agrees, and_comm]
  rfl

/-- The places of what is found increase, so each is there once. -/
theorem Catalog.pairwise_places : (c.places roots).Pairwise (· < ·) := by
  have hsorted : (c.places roots).Pairwise fun i j => decide (i ≤ j) = true :=
    List.pairwise_mergeSort (by simpa using fun _ _ _ => Nat.le_trans)
      (by simpa using Nat.le_total) _
  have hnodup : (c.places roots).Nodup := by
    refine (List.mergeSort_perm _ _).nodup_iff.mpr (List.Nodup.filterMap ?_ ?_)
    · intro m n place hm hn
      have hsame := ((c.agrees m place).mp hm).symm.trans ((c.agrees n place).mp hn)
      exact Option.some.inj hsame
    · exact Search.nodup_run List.nodup_nil
  refine (hsorted.and hnodup).imp ?_
  rintro i j ⟨hle, hne⟩
  exact Nat.lt_of_le_of_ne (of_decide_eq_true hle) hne

/-- What stands at increasing places is there in order. -/
theorem sublist_filterMap_getElem? {α : Type} (l : List α) {places : List ℕ} {k : ℕ}
    (hplaces : places.Pairwise (· < ·)) (hk : ∀ place ∈ places, k ≤ place) :
    (places.filterMap (l[·]?)).Sublist (l.drop k) := by
  induction places generalizing k with
  | nil => exact List.nil_sublist _
  | cons place places ih =>
    obtain ⟨hlater, hplaces⟩ := List.pairwise_cons.mp hplaces
    have hrest := ih hplaces fun i hi => hlater i hi
    have hfront : (l.drop place).Sublist (l.drop k) :=
      List.drop_sublist_drop_left l (hk place List.mem_cons_self)
    cases hplace : l[place]? with
    | none =>
      rw [List.filterMap_cons_none hplace]
      exact (hrest.trans (List.drop_sublist_drop_left l (Nat.le_succ place))).trans hfront
    | some a =>
      obtain ⟨hlt, rfl⟩ := List.getElem?_eq_some_iff.mp hplace
      rw [List.filterMap_cons_some hplace]
      rw [List.drop_eq_getElem_cons hlt] at hfront
      exact (hrest.cons_cons _).trans hfront

theorem Catalog.closure_eq :
    c.closure roots = (c.places roots).filterMap fun place => c.declarations[place]? := by
  unfold closure declarations
  simp only [List.getElem?_map]

/-- **The declarations that names depend on stand in the order of the catalog.** -/
theorem Catalog.closure_sublist : (c.closure roots).Sublist c.declarations := by
  rw [closure_eq]
  exact sublist_filterMap_getElem? c.declarations pairwise_places fun _ _ => Nat.zero_le _

/-- **The declarations that names depend on are those reached from them.** -/
theorem Catalog.mem_closure {d : Declaration} :
    d ∈ c.closure roots ↔ d ∈ c.declarations ∧ c.Reached roots d.name := by
  have hname : ∀ place, c.declarations[place]? = some d → c.nameAt? place = some d.name := by
    intro place hplace
    unfold declarations at hplace
    rw [List.getElem?_map] at hplace
    obtain ⟨e, he, rfl⟩ := Option.map_eq_some_iff.mp hplace
    exact congrArg (Option.map Entry.name) he
  rw [closure_eq, List.mem_filterMap]
  constructor
  · rintro ⟨place, hplace, hd⟩
    obtain ⟨n, hn, hreached⟩ := mem_places.mp hplace
    obtain rfl := Option.some.inj (hn.symm.trans (hname place hd))
    exact ⟨List.mem_of_getElem? hd, hreached⟩
  · rintro ⟨hd, hreached⟩
    obtain ⟨place, hplace⟩ := List.mem_iff_getElem?.mp hd
    exact ⟨place, mem_places.mpr ⟨d.name, hname place hplace, hreached⟩, hplace⟩

end ApiSurface
