import ApiSurface.Json.Decode
import ApiSurface.Proofs.Dict
import ApiSurface.Proofs.Reading
import Mathlib.Data.List.Nodup

/-!
# What stands in a JSON value

* `Json.induction`: what passes from items and members to lists and objects holds of every value;
* `Json.Part`: one value stands somewhere in another, or is that value;
* `part_of_slots`, `part_of_listOf?`: what a record or a list is read from stands in it;
* `fitItems_iff`, `fitMembers_iff`, `once_of_nodup`: items and members one by one.
-/

namespace ApiSurface.Json

@[elab_as_elim, induction_eliminator]
theorem induction {p : Json → Prop} (null : p .null) (bool : ∀ b, p (.bool b))
    (number : ∀ n, p (.number n)) (text : ∀ s, p (.text s))
    (list : ∀ items, (∀ v ∈ items, p v) → p (.list items))
    (object : ∀ members : List (String × Json), (∀ m ∈ members, p m.2) → p (.object members))
    (unfit : p .unfit) (v : Json) : p v := by
  refine @Json.rec p (fun items => ∀ v ∈ items, p v) (fun members => ∀ m ∈ members, p m.2)
    (fun m => p m.2) null bool number text list object unfit ?_ ?_ ?_ ?_ (fun _ _ h => h) v
  · exact fun v hv => absurd hv List.not_mem_nil
  · intro v items hv hitems w hw
    rcases List.mem_cons.mp hw with rfl | hw
    · exact hv
    · exact hitems w hw
  · exact fun m hm => absurd hm List.not_mem_nil
  · intro m members hm hmembers w hw
    rcases List.mem_cons.mp hw with rfl | hw
    · exact hm
    · exact hmembers w hw

/-- A value stands somewhere in another, or is that value. -/
inductive Part : Json → Json → Prop
  | self (v : Json) : Part v v
  | item {w v : Json} {items : List Json} (hv : v ∈ items) (hw : Part w v) : Part w (.list items)
  | member {w v : Json} {k : String} {members : List (String × Json)} (hv : (k, v) ∈ members)
      (hw : Part w v) : Part w (.object members)

theorem Part.trans {u v w : Json} (huv : Part u v) (hvw : Part v w) : Part u w := by
  induction hvw with
  | self => exact huv
  | item hv _ ih => exact .item hv ih
  | member hv _ ih => exact .member hv ih

theorem part_of_slots {names : List String} {v w : Json} {values : List (Option Json)}
    (h : slots names v = some values) (hw : some w ∈ values) : Part w v := by
  cases v with
  | object ms =>
    rw [slots] at h
    split at h
    · cases h
      obtain ⟨name, -, hname⟩ := List.mem_map.mp hw
      exact .member (Dict.mem_of_get? hname) (.self w)
    · cases h
  | list vs =>
    rw [slots] at h
    split at h
    · cases h
      rcases List.mem_append.mp hw with hw | hw
      · obtain ⟨x, hx, hxw⟩ := List.mem_map.mp hw
        cases hxw
        exact .item hx (.self w)
      · exact absurd (List.eq_of_mem_replicate hw) (by simp)
    · cases h
  | _ => exact absurd h (by simp [slots])

theorem part_of_listOf? {α : Type} {read : Json → Option α} {v : Json} {as : List α}
    (h : listOf? read v = some as) {a : α} (ha : a ∈ as) : ∃ w, Part w v ∧ read w = some a := by
  cases v with
  | list vs =>
    obtain ⟨w, hw, hread⟩ := exists_of_mem_mapM h ha
    exact ⟨w, .item hw (.self w), hread⟩
  | _ => exact absurd h (by simp [listOf?])

/-! ## Items and members -/

theorem fitItems_iff {vs : List Json} : fitItems vs = true ↔ ∀ v ∈ vs, v.fit = true := by
  induction vs with
  | nil => simp [fitItems]
  | cons v vs ih => simp [fitItems, ih]

theorem fitMembers_iff {ms : List (String × Json)} :
    fitMembers ms = true ↔ ∀ m ∈ ms, m.2.fit = true := by
  induction ms with
  | nil => simp [fitMembers]
  | cons m ms ih => simp [fitMembers, ih]

theorem occurrences_le_one {ms : List (String × Json)} (h : (ms.map (·.1)).Nodup) (k : String) :
    occurrences k ms ≤ 1 := by
  have hcount : occurrences k ms = (ms.map (·.1)).count k := by
    rw [occurrences, List.count, List.countP_map, List.countP_eq_length_filter]
    congr 2
  rw [hcount]
  exact List.nodup_iff_count_le_one.mp h k

theorem once_of_nodup {ms : List (String × Json)} (h : (ms.map (·.1)).Nodup) (names : List String) :
    once names ms = true :=
  List.all_eq_true.mpr fun n _ => decide_eq_true (occurrences_le_one h n)

end ApiSurface.Json
