import ApiSurface.Dict
import Mathlib.Data.List.Pairwise
import Mathlib.Data.String.Basic

/-!
# Look-up in sorted dictionaries

Insertion keeps the keys of a dictionary increasing, and such a dictionary is no more than what it
holds under each key.

* `Dict.Sorted`: the keys increase, so each stands once;
* `get?_insert`, `Sorted.insert`, `length_insert`: insertion, seen by look-up, by order and by
  counting;
* **`Sorted.ext`**: two sorted dictionaries that hold the same under each key are equal.
-/

namespace ApiSurface.Dict

variable {α : Type}

/-- The keys increase. -/
def Sorted (d : Dict α) : Prop := d.Pairwise fun p q => p.1 < q.1

theorem sorted_nil : Sorted ([] : Dict α) := List.Pairwise.nil

@[simp] theorem get?_nil (k : String) : get? ([] : Dict α) k = none := rfl

theorem lookup_member (k l : String) (a : α) (d : List (String × α)) :
    List.lookup k ((l, a) :: d) = if k = l then some a else List.lookup k d := by
  rw [List.lookup_cons]
  by_cases h : k = l
  · simp [h]
  · rw [if_neg h, beq_false_of_ne h]

theorem get?_cons (l : String) (a : α) (d : Dict α) (k : String) :
    get? ((l, a) :: d) k = if k = l then some a else get? d k := lookup_member k l a d

theorem mem_of_get? {d : Dict α} {k : String} {a : α} (h : get? d k = some a) : (k, a) ∈ d := by
  obtain ⟨before, after, rfl, -⟩ := List.lookup_eq_some_iff.mp h
  exact List.mem_append_right before List.mem_cons_self

theorem mem_keys {d : Dict α} {k : String} : k ∈ d.keys ↔ ∃ a, (k, a) ∈ d := by
  unfold keys
  rw [List.mem_map]
  constructor
  · rintro ⟨⟨l, a⟩, hp, rfl⟩
    exact ⟨a, hp⟩
  · rintro ⟨a, ha⟩
    exact ⟨(k, a), ha, rfl⟩

/-! ## Insertion -/

theorem get?_insert (k : String) (a : α) (d : Dict α) (l : String) :
    get? (d.insert k a) l = if l = k then some a else get? d l := by
  induction d with
  | nil => rw [insert, get?_cons]
  | cons p d ih =>
    obtain ⟨m, b⟩ := p
    rw [insert]
    by_cases hlt : k < m
    · rw [if_pos hlt, get?_cons]
    · rw [if_neg hlt]
      by_cases heq : k = m
      · subst heq
        rw [if_pos rfl, get?_cons, get?_cons]
        by_cases hl : l = k
        · rw [if_pos hl, if_pos hl]
        · rw [if_neg hl, if_neg hl, if_neg hl]
      · rw [if_neg heq, get?_cons, get?_cons, ih]
        by_cases hl : l = k
        · rw [if_pos hl, if_pos hl, if_neg (fun h => heq (hl.symm.trans h))]
        · rw [if_neg hl, if_neg hl]

theorem mem_insert {k : String} {a : α} {d : Dict α} {p : String × α} (h : p ∈ d.insert k a) :
    p = (k, a) ∨ p ∈ d := by
  induction d with
  | nil => exact Or.inl (List.mem_singleton.mp h)
  | cons q d ih =>
    rw [insert] at h
    split_ifs at h
    · exact List.mem_cons.mp h
    · exact (List.mem_cons.mp h).imp_right (List.mem_cons_of_mem _)
    · rcases List.mem_cons.mp h with rfl | h
      · exact Or.inr List.mem_cons_self
      · exact (ih h).imp_right (List.mem_cons_of_mem _)

theorem Sorted.insert (k : String) (a : α) {d : Dict α} (hd : Sorted d) :
    Sorted (d.insert k a) := by
  induction d with
  | nil => exact List.pairwise_singleton _ _
  | cons q d ih =>
    obtain ⟨hq, hd'⟩ := List.pairwise_cons.mp hd
    rw [Dict.insert]
    split_ifs with hlt heq
    · refine List.pairwise_cons.mpr ⟨fun p hp => ?_, hd⟩
      rcases List.mem_cons.mp hp with rfl | hp
      · exact hlt
      · exact hlt.trans (hq p hp)
    · exact List.pairwise_cons.mpr ⟨fun p hp => heq ▸ hq p hp, hd'⟩
    · refine List.pairwise_cons.mpr ⟨fun p hp => ?_, ih hd'⟩
      rcases mem_insert hp with rfl | hp
      · exact lt_of_le_of_ne (not_lt.mp hlt) (Ne.symm heq)
      · exact hq p hp

theorem insert_of_lt {d : Dict α} {k : String} (a : α) (h : ∀ p ∈ d, p.1 < k) :
    d.insert k a = d ++ [(k, a)] := by
  induction d with
  | nil => rfl
  | cons q d ih =>
    have hq := h q List.mem_cons_self
    rw [insert, if_neg (not_lt.mpr hq.le), if_neg hq.ne',
      ih fun p hp => h p (List.mem_cons_of_mem q hp), List.cons_append]

/-- Pairs inserted in the order of their keys stand in that order. -/
theorem foldl_insert {done fs : Dict α} (h : Sorted (done ++ fs)) :
    fs.foldl (fun d f => d.insert f.1 f.2) done = done ++ fs := by
  induction fs generalizing done with
  | nil => rw [List.foldl_nil, List.append_nil]
  | cons f fs ih =>
    obtain ⟨-, -, hbefore⟩ := List.pairwise_append.mp h
    have happend : done ++ f :: fs = (done ++ [f]) ++ fs := List.append_cons done f fs
    rw [List.foldl_cons, insert_of_lt f.2 fun p hp => hbefore p hp f List.mem_cons_self, happend]
    exact ih (happend ▸ h)

theorem sorted_iff_keys {d : Dict α} : Sorted d ↔ d.keys.Pairwise (· < ·) :=
  List.pairwise_map.symm

theorem Sorted.foldl_insert {d : Dict α} (hd : Sorted d) (fs : List (String × α)) :
    Sorted (fs.foldl (fun d f => d.insert f.1 f.2) d) := by
  induction fs generalizing d with
  | nil => exact hd
  | cons f fs ih => exact ih (hd.insert f.1 f.2)

theorem mem_foldl_insert {d : Dict α} {fs : List (String × α)} {p : String × α}
    (hp : p ∈ fs.foldl (fun d f => d.insert f.1 f.2) d) : p ∈ d ∨ p ∈ fs := by
  induction fs generalizing d with
  | nil => exact Or.inl hp
  | cons f fs ih =>
    rcases ih hp with hp | hp
    · rcases mem_insert hp with rfl | hp
      · exact Or.inr List.mem_cons_self
      · exact Or.inl hp
    · exact Or.inr (List.mem_cons_of_mem f hp)

/-! ## Look-up decides -/

theorem get?_eq_some_iff {d : Dict α} (hd : Sorted d) (k : String) (a : α) :
    get? d k = some a ↔ (k, a) ∈ d := by
  induction d with
  | nil => simp
  | cons q d ih =>
    obtain ⟨m, b⟩ := q
    obtain ⟨hq, hd'⟩ := List.pairwise_cons.mp hd
    rw [get?_cons, List.mem_cons]
    by_cases h : k = m
    · subst h
      rw [if_pos rfl]
      constructor
      · rintro ⟨⟩
        exact Or.inl rfl
      · rintro (h | h)
        · cases h
          rfl
        · exact absurd (hq _ h) (lt_irrefl _)
    · rw [if_neg h, ih hd']
      exact ⟨Or.inr, fun ha => ha.resolve_left fun e => h (congrArg Prod.fst e)⟩

theorem get?_eq_none_of_lt {d : Dict α} {k : String} (h : ∀ p ∈ d, k < p.1) :
    get? d k = none := by
  induction d with
  | nil => rfl
  | cons q d ih =>
    obtain ⟨m, b⟩ := q
    rw [get?_cons, if_neg (h _ List.mem_cons_self).ne,
      ih fun p hp => h p (List.mem_cons_of_mem _ hp)]

/-- How many values there are after an insertion, in dictionaries that hold several under a key: the
new ones count, those they replace no longer. -/
theorem length_flatMap_insert {β : Type} (f : α → List β) (k : String) (a : α) {d : Dict α}
    (hd : Sorted d) :
    ((d.insert k a).flatMap fun p => f p.2).length + (((get? d k).map f).getD []).length =
      (d.flatMap fun p => f p.2).length + (f a).length := by
  induction d with
  | nil => simp [insert]
  | cons q d ih =>
    obtain ⟨m, b⟩ := q
    obtain ⟨hq, hd'⟩ := List.pairwise_cons.mp hd
    rw [insert]
    by_cases hlt : k < m
    · have hnone : get? ((m, b) :: d) k = none := by
        refine get?_eq_none_of_lt fun p hp => ?_
        rcases List.mem_cons.mp hp with rfl | hp
        · exact hlt
        · exact hlt.trans (hq p hp)
      rw [if_pos hlt, hnone]
      simp only [List.flatMap_cons, List.length_append, Option.map_none, Option.getD_none,
        List.length_nil]
      omega
    · rw [if_neg hlt, get?_cons]
      by_cases heq : k = m
      · rw [if_pos heq, if_pos heq]
        simp only [List.flatMap_cons, List.length_append, Option.map_some, Option.getD_some]
        omega
      · rw [if_neg heq, if_neg heq]
        simp only [List.flatMap_cons, List.length_append]
        have := ih hd'
        omega

theorem length_insert (k : String) (a : α) {d : Dict α} (hd : Sorted d) :
    (d.insert k a).length + (get? d k).toList.length = d.length + 1 := by
  have h := length_flatMap_insert (fun b => [b]) k a hd
  have hold : ((get? d k).map fun b => [b]).getD [] = (get? d k).toList := by
    cases get? d k <;> rfl
  rw [hold, ← List.map_eq_flatMap, ← List.map_eq_flatMap, List.length_map, List.length_map] at h
  exact h

theorem Sorted.nodup {d : Dict α} (hd : Sorted d) : d.Nodup :=
  List.Pairwise.imp (fun hlt heq => absurd hlt (by rw [heq]; exact lt_irrefl _)) hd

theorem Sorted.nodup_keys {d : Dict α} (hd : Sorted d) : d.keys.Nodup :=
  (sorted_iff_keys.mp hd).imp ne_of_lt

/-- **Two sorted dictionaries that hold the same under each key are equal.** -/
theorem Sorted.ext {d e : Dict α} (hd : Sorted d) (he : Sorted e)
    (h : ∀ k, get? d k = get? e k) : d = e := by
  have hperm : d.Perm e := (List.perm_ext_iff_of_nodup hd.nodup he.nodup).mpr fun p => by
    rw [← get?_eq_some_iff hd, ← get?_eq_some_iff he, h]
  exact hperm.eq_of_pairwise (fun p q _ _ hpq hqp => absurd (hpq.trans hqp) (lt_irrefl _)) hd he

end ApiSurface.Dict
