import ApiSurface.Proofs.Catalog.Reach
import Mathlib.Data.Finset.Card
import Mathlib.Order.WellFounded

/-!
# Catalogs without cycles

A catalog with no cycle to report has none: the search that fixes the order of reporting finishes
every name. Supertypes then lead upwards to an end.

* `Catalog.Finishes`: what the search has met it has finished, except what it started from;
* **`Catalog.not_above_self`**: without a reported cycle, nothing lies above itself;
* **`Catalog.exists_topmost`**: of the names with a property that lie above a name, one is topmost.
-/

namespace ApiSurface.Catalog

variable {c : Catalog}

/-! ## Every name is finished -/

/-- From one state of the search to a later one: nothing is forgotten, and what was met in between
is finished. -/
structure Finishes (s t : List String × List String) : Prop where
  seen : ∀ n ∈ s.1, n ∈ t.1
  done : ∀ n ∈ s.2, n ∈ t.2
  settled : ∀ n ∈ t.1, n ∈ s.1 ∨ n ∈ t.2

theorem Finishes.refl (s : List String × List String) : Finishes s s :=
  ⟨fun _ h => h, fun _ h => h, fun _ h => Or.inl h⟩

theorem Finishes.trans {s t u : List String × List String} (h : Finishes s t)
    (g : Finishes t u) : Finishes s u where
  seen n hn := g.seen n (h.seen n hn)
  done n hn := g.done n (h.done n hn)
  settled n hn := (g.settled n hn).elim (fun hn => (h.settled n hn).imp_right (g.done n)) Or.inr

theorem finishes_foldl (visit : List String × List String → String → List String × List String)
    (hvisit : ∀ s n, Finishes s (visit s n)) (ns : List String) (s : List String × List String) :
    Finishes s (ns.foldl visit s) := by
  induction ns generalizing s with
  | nil => exact Finishes.refl s
  | cons n ns ih => exact (hvisit s n).trans (ih (visit s n))

theorem finishes_finish (fuel : ℕ) (s : List String × List String) (n : String) :
    Finishes s (c.finish fuel n s) := by
  induction fuel generalizing s n with
  | zero => exact Finishes.refl s
  | succ fuel ih =>
    obtain ⟨seen, done⟩ := s
    rw [finish]
    split_ifs
    · exact Finishes.refl _
    · have h := finishes_foldl (fun t m => c.finish fuel m t) ih (c.subtypes n)
        (n :: seen, done)
      refine ⟨fun m hm => h.seen m (List.mem_cons_of_mem _ hm),
        fun m hm => List.mem_cons_of_mem _ (h.done m hm), fun m hm => ?_⟩
      rcases h.settled m hm with hm | hm
      · rcases List.mem_cons.mp hm with rfl | hm
        · exact Or.inr List.mem_cons_self
        · exact Or.inl hm
      · exact Or.inr (List.mem_cons_of_mem _ hm)

theorem mem_seen_finish (fuel : ℕ) (s : List String × List String) (n : String) :
    n ∈ (c.finish (fuel + 1) n s).1 := by
  obtain ⟨seen, done⟩ := s
  rw [finish]
  split_ifs with h
  · exact List.contains_iff_mem.mp h
  · exact (finishes_foldl (fun t m => c.finish fuel m t) (finishes_finish fuel) (c.subtypes n)
      (n :: seen, done)).seen n List.mem_cons_self

theorem mem_finishOrder {n : String} (hn : n ∈ c.names) : n ∈ c.finishOrder := by
  have hall : ∀ (ns : List String) (s : List String × List String), n ∈ ns →
      n ∈ (ns.foldl (fun t m => c.finish (c.rounds + 1) m t) s).1 := by
    intro ns s hns
    induction ns generalizing s with
    | nil => exact absurd hns List.not_mem_nil
    | cons m ns ih =>
      rcases List.mem_cons.mp hns with rfl | hns
      · exact (finishes_foldl _ (finishes_finish _) ns _).seen n (mem_seen_finish _ s n)
      · exact ih _ hns
  exact ((finishes_foldl _ (finishes_finish (c.rounds + 1)) c.names ([], [])).settled n
    (hall c.names ([], []) hn)).resolve_left List.not_mem_nil

/-! ## No reported cycle, no cycle -/

theorem reaches_of_cyclesThrough_eq_nil {ns : List String} (h : c.cyclesThrough ns [] = []) :
    ∀ n ∈ ns, c.reaches n n = false := by
  induction ns with
  | nil => exact fun n hn => absurd hn List.not_mem_nil
  | cons m ns ih =>
    rw [cyclesThrough] at h
    split_ifs at h with hm
    intro n hn
    rcases List.mem_cons.mp hn with rfl | hn
    · simpa using hm
    · exact ih h n hn

/-- **If no cycle is reported, no declaration lies above itself.** -/
theorem not_above_self (h : c.cycles = []) (n : String) : ¬ c.Above n n := by
  intro hn
  have := reaches_of_cyclesThrough_eq_nil h n (mem_finishOrder (mem_names.mpr hn.contains_left))
  rw [reaches_iff.mpr hn] at this
  cases this

theorem cycles_build_eq_nil {es : List Entry}
    (h : ∀ n ∈ (build es).notes, n.code ≠ .inheritanceCycle) : (build es).value.cycles = [] := by
  refine List.eq_nil_iff_forall_not_mem.mpr fun members hmem => ?_
  refine h (Note.inheritanceCycle members) ?_ rfl
  refine List.mem_append_right _ (List.mem_append_right _ (List.mem_append_left _ ?_))
  exact List.mem_map.mpr ⟨members, hmem, rfl⟩

/-! ## Upwards to an end -/

theorem wellFounded_above (h : ∀ n, ¬ c.Above n n) : WellFounded fun k m => c.Above m k := by
  refine Subrelation.wf ?_
    (InvImage.wf (fun m => (c.names.toFinset.filter fun k => c.reaches m k).card) Nat.lt_wfRel.wf)
  intro k m hmk
  refine Finset.card_lt_card (Finset.ssubset_iff_of_subset ?_ |>.mpr ⟨k, ?_, ?_⟩)
  · intro x hx
    rw [Finset.mem_filter, reaches_iff] at hx ⊢
    exact ⟨hx.1, hmk.trans hx.2⟩
  · rw [Finset.mem_filter, reaches_iff, List.mem_toFinset]
    exact ⟨mem_names.mpr hmk.contains_right, hmk⟩
  · rw [Finset.mem_filter, reaches_iff]
    exact fun hk => h k hk.2

/-- **Without cycles, of the names with a property at or above a name one is topmost.** -/
theorem exists_topmost (h : ∀ n, ¬ c.Above n n) {p : String → Prop} {n : String} (hn : p n) :
    ∃ m, (m = n ∨ c.Above n m) ∧ p m ∧ ∀ k, c.Above m k → ¬ p k := by
  obtain ⟨m, ⟨hm, hpm⟩, hmin⟩ := (wellFounded_above h).has_min
    {m | (m = n ∨ c.Above n m) ∧ p m} ⟨n, Or.inl rfl, hn⟩
  refine ⟨m, hm, hpm, fun k hk hpk => hmin k ⟨?_, hpk⟩ hk⟩
  rcases hm with rfl | hm
  · exact Or.inr hk
  · exact Or.inr (hm.trans hk)

end ApiSurface.Catalog
