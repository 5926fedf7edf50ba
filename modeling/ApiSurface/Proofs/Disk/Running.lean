import ApiSurface.Disk.Tree

/-!
# Actions on a disk

* `on_bind`, `exists_of_on_bind_ok`, `on_bind_error`: two steps, one after the other;
* `Action.Reads`: every call of an action only reads, whatever was answered before;
* **`Reads.on_snd`**: such an action leaves the disk as it is.
-/

namespace ApiSurface.Action

variable {α β : Type} {d d' : Disk}

/-! ## One step after another -/

@[simp] theorem on_ofExcept (r : Except Failure α) : (ofExcept r).on d = (r, d) := rfl

@[simp] theorem on_call (c : Call) (next : c.Answer → Action α) :
    (call c next).on d = (next (d.answer c).1).on (d.answer c).2 := rfl

theorem on_ask (c : Call) : (ask c).on d = (.ok (d.answer c).1, (d.answer c).2) := rfl

theorem on_demand (c : Call) (refused : Refusal → Failure) :
    (demand c refused).on d = ((d.answer c).1.mapError refused, (d.answer c).2) := rfl

theorem on_bind (m : Action α) (f : α → Action β) :
    (m >>= f).on d = match m.on d with
      | (.ok a, d') => (f a).on d'
      | (.error e, d') => (.error e, d') := by
  induction m generalizing d with
  | done r => cases r <;> rfl
  | call c next ih => exact ih (d.answer c).1

theorem on_bind_ok {m : Action α} {a : α} (h : m.on d = (.ok a, d')) (f : α → Action β) :
    (m >>= f).on d = (f a).on d' := by
  rw [on_bind, h]

theorem exists_of_on_bind_ok {m : Action α} {f : α → Action β} {b : β}
    (h : (m >>= f).on d = (.ok b, d')) :
    ∃ a d₁, m.on d = (.ok a, d₁) ∧ (f a).on d₁ = (.ok b, d') := by
  rw [on_bind] at h
  split at h
  · next a d₁ hm => exact ⟨a, d₁, hm, h⟩
  · cases h

theorem on_bind_error {m : Action α} {f : α → Action β} {e : Failure}
    (h : (m >>= f).on d = (.error e, d')) :
    m.on d = (.error e, d') ∨ ∃ a d₁, m.on d = (.ok a, d₁) ∧ (f a).on d₁ = (.error e, d') := by
  rw [on_bind] at h
  split at h
  · next a d₁ hm => exact Or.inr ⟨a, d₁, hm, h⟩
  · next e' d₁ hm =>
    cases h
    exact Or.inl hm

/-- A call that is answered, or a failure for its refusal. -/
theorem on_demand_ok {c : Call} {refused : Refusal → Failure} {a : c.Reply}
    (h : (demand c refused).on d = (.ok a, d')) : d.answer c = (.ok a, d') := by
  rw [on_demand] at h
  obtain ⟨hfst, hsnd⟩ := Prod.mk.inj h
  cases hanswer : (d.answer c).1 with
  | error r =>
    rw [hanswer] at hfst
    cases hfst
  | ok b =>
    rw [hanswer] at hfst
    cases hfst
    exact Prod.ext hanswer hsnd

theorem on_demand_error {c : Call} {refused : Refusal → Failure} {e : Failure}
    (h : (demand c refused).on d = (.error e, d')) : ∃ r, d.answer c = (.error r, d') := by
  rw [on_demand] at h
  obtain ⟨hfst, hsnd⟩ := Prod.mk.inj h
  cases hanswer : (d.answer c).1 with
  | error r => exact ⟨r, Prod.ext hanswer hsnd⟩
  | ok b =>
    rw [hanswer] at hfst
    cases hfst

/-! ## One action for each item -/

theorem forAll_cons (f : α → Action β) (a : α) (as : List α) :
    forAll f (a :: as) = f a >>= fun b => forAll f as >>= fun bs => Pure.pure (b :: bs) := rfl

/-- The actions for the first items end well, or one of them fails. -/
theorem forAll_error {f : α → Action β} {as : List α} {e : Failure}
    (h : (forAll f as).on d = (.error e, d')) : ∃ before a after bs d₁, as = before ++ a :: after ∧
      (forAll f before).on d = (.ok bs, d₁) ∧ (f a).on d₁ = (.error e, d') := by
  induction as generalizing d with
  | nil => cases h
  | cons a as ih =>
    rw [forAll_cons] at h
    rcases on_bind_error h with ha | ⟨b, d₁, ha, h⟩
    · exact ⟨[], a, as, [], d, rfl, rfl, ha⟩
    · rcases on_bind_error h with has | ⟨bs, d₂, -, hpure⟩
      · obtain ⟨before, x, after, bs, d₂, rfl, hbefore, hx⟩ := ih has
        refine ⟨a :: before, x, after, b :: bs, d₂, rfl, ?_, hx⟩
        rw [forAll_cons, on_bind_ok ha, on_bind_ok hbefore]
        rfl
      · cases hpure

/-- One more item at the end. -/
theorem forAll_concat {f : α → Action β} {as : List α} {a : α} {bs : List β} {b : β}
    {d₁ d₂ : Disk} (h : (forAll f as).on d = (.ok bs, d₁)) (ha : (f a).on d₁ = (.ok b, d₂)) :
    (forAll f (as ++ [a])).on d = (.ok (bs ++ [b]), d₂) := by
  induction as generalizing d bs with
  | nil =>
    cases h
    rw [List.nil_append, forAll_cons, on_bind_ok ha]
    rfl
  | cons c as ih =>
    rw [forAll_cons] at h
    obtain ⟨x, d₃, hc, h⟩ := exists_of_on_bind_ok h
    obtain ⟨xs, d₄, has, hdone⟩ := exists_of_on_bind_ok h
    cases hdone
    rw [List.cons_append, forAll_cons, on_bind_ok hc, on_bind_ok (ih has)]
    rfl

/-- Actions that leave the disk as it is may be done in turn. -/
theorem forAll_of_forall {f : α → Action β} {g : α → β} {as : List α}
    (h : ∀ a ∈ as, (f a).on d = (.ok (g a), d)) : (forAll f as).on d = (.ok (as.map g), d) := by
  induction as with
  | nil => rfl
  | cons a as ih =>
    have hrest := ih fun b hb => h b (List.mem_cons_of_mem a hb)
    rw [forAll_cons, on_bind_ok (h a List.mem_cons_self), on_bind_ok hrest]
    rfl

/-! ## Actions that only read -/

/-- Every call of the action only reads, whatever was answered before. -/
inductive Reads : Action α → Prop
  | done (r : Except Failure α) : Reads (.done r)
  | call {c : Call} {next : c.Answer → Action α} (hc : c.isReading = true)
      (h : ∀ r, Reads (next r)) : Reads (.call c next)

namespace Reads

theorem pure (a : α) : Reads (Pure.pure a : Action α) := done (.ok a)

theorem fail (e : Failure) : Reads (Action.fail e : Action α) := done (.error e)

theorem ofExcept (r : Except Failure α) : Reads (Action.ofExcept r) := done r

theorem ask {c : Call} (hc : c.isReading = true) : Reads (Action.ask c) :=
  call hc fun r => done (.ok r)

theorem demand {c : Call} (hc : c.isReading = true) (refused : Refusal → Failure) :
    Reads (Action.demand c refused) := call hc fun r => done (r.mapError refused)

theorem bind {m : Action α} {f : α → Action β} (hm : m.Reads) (hf : ∀ a, (f a).Reads) :
    (m >>= f).Reads := by
  induction hm with
  | done r =>
    cases r with
    | ok a => exact hf a
    | error e => exact done (.error e)
  | call hc _ ih => exact call hc ih

theorem forAll {f : α → Action β} {as : List α} (h : ∀ a ∈ as, (f a).Reads) :
    (Action.forAll f as).Reads := by
  induction as with
  | nil => exact pure []
  | cons a as ih =>
    have hrest := ih fun b hb => h b (List.mem_cons_of_mem a hb)
    exact (h a List.mem_cons_self).bind fun b => hrest.bind fun bs => pure (b :: bs)

/-- **An action that only reads leaves the disk as it is.** -/
theorem on_snd {m : Action α} (h : m.Reads) (d : Disk) : (m.on d).2 = d := by
  induction h with
  | done r => rfl
  | call hc _ ih =>
    rw [on_call, Disk.answer_snd_of_isReading hc]
    exact ih _

/-- Of actions that only read, each can be done on its own. -/
theorem forAll_ok {f : α → Action β} {as : List α} {bs : List β} (hf : ∀ a ∈ as, (f a).Reads)
    (h : (Action.forAll f as).on d = (.ok bs, d')) :
    ∀ a ∈ as, ∃ b ∈ bs, (f a).on d = (.ok b, d) := by
  induction as generalizing d bs with
  | nil => exact nofun
  | cons a as ih =>
    rw [forAll_cons] at h
    obtain ⟨b, d₁, hb, h⟩ := exists_of_on_bind_ok h
    obtain ⟨cs, d₂, hcs, h⟩ := exists_of_on_bind_ok h
    cases h
    have hsame : d₁ = d := by
      rw [← (hf a List.mem_cons_self).on_snd d, hb]
    subst hsame
    intro x hx
    rcases List.mem_cons.mp hx with rfl | hx
    · exact ⟨b, List.mem_cons_self, hb⟩
    · obtain ⟨c, hc, hx⟩ := ih (fun y hy => hf y (List.mem_cons_of_mem a hy)) hcs x hx
      exact ⟨c, List.mem_cons_of_mem b hc, hx⟩

theorem on_eq {m : Action α} (h : m.Reads) (d : Disk) : m.on d = ((m.on d).1, d) :=
  Prod.ext rfl (h.on_snd d)

end Reads

end ApiSurface.Action
