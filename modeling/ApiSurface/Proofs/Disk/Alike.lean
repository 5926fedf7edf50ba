import ApiSurface.Proofs.Disk.Course

/-!
# Trees that are alike around a place

Two trees are alike at a place if the same stands there, and above it too, except that the second
may have directories already that could be made in the first. Such trees cannot be told apart by a
path that hinges on the place, and making the directories along the path leaves them alike.

* `Near`, `AlikeAt`: the same but for a directory; alike at a place, and what keeps two trees so;
* `Extends`: no directory is gone;
* **`lookup_alike`**: the same is found at the end of a path;
* `withDirectories_ok`, `withDirectories_frame`: what making directories gives and what it changes;
* **`withDirectories_alike`**: making directories answers alike and leaves the trees alike.
-/

namespace ApiSurface.Disk

open ApiSurface.Path (Component IsStep steps)
open ApiSurface.Node

/-- The same stands at a place of two trees, or there is a directory in the second that could be
made in the first. -/
def Near (f : Faults) (n m : Node) (p : List String) : Prop :=
  m.kind? p = n.kind? p ∨ n.kind? p = none ∧ m.kind? p = some .directory ∧ f.making p = none

/-- The same stands at a place of two trees, and above it too, but for directories of the second
that could be made in the first. -/
structure AlikeAt (f : Faults) (n m : Node) (q : List String) : Prop where
  same : m.kind? q = n.kind? q
  above : ∀ r, r <+: q → r ≠ q → Near f n m r

section Alike

variable {f : Faults} {n m n' m' : Node} {p q : List String}

theorem Near.trans (h : Near f n m p) (h' : Near f m m' p) : Near f n m' p := by
  rcases h with hsame | ⟨hnone, hdir, hmaking⟩
  · unfold Near at h' ⊢
    rwa [hsame] at h'
  · rcases h' with hsame' | ⟨hnone', -⟩
    · exact Or.inr ⟨hnone, hsame'.trans hdir, hmaking⟩
    · rw [hdir] at hnone'
      cases hnone'

theorem Near.congr (h : Near f n m p) (hn : n'.kind? p = n.kind? p) (hm : m'.kind? p = m.kind? p) :
    Near f n' m' p := by
  unfold Near
  rw [hn, hm]
  exact h

theorem AlikeAt.refl (f : Faults) (n : Node) (q : List String) : AlikeAt f n n q :=
  ⟨rfl, fun _ _ _ => Or.inl rfl⟩

theorem AlikeAt.trans (h : AlikeAt f n m q) (h' : AlikeAt f m m' q) : AlikeAt f n m' q :=
  ⟨h'.same.trans h.same, fun r hr hne => (h.above r hr hne).trans (h'.above r hr hne)⟩

/-- What changes neither the place nor anything above it leaves a tree alike. -/
theorem AlikeAt.of_unchanged (h : ∀ r, r <+: q → m.kind? r = n.kind? r) : AlikeAt f n m q :=
  ⟨h q (List.prefix_refl q), fun r hr _ => Or.inl (h r hr)⟩

/-- Changes of neither the place nor anything above it keep two trees alike. -/
theorem AlikeAt.congr (h : AlikeAt f n m q) (hn : ∀ r, r <+: q → n'.kind? r = n.kind? r)
    (hm : ∀ r, r <+: q → m'.kind? r = m.kind? r) : AlikeAt f n' m' q := by
  refine ⟨?_, fun r hr hne => (h.above r hr hne).congr (hn r hr) (hm r hr)⟩
  rw [hm q (List.prefix_refl q), hn q (List.prefix_refl q), h.same]

/-- The same change at one place keeps two trees alike. -/
theorem AlikeAt.update (h : AlikeAt f n m q) {s : List String} {x : Option Kind}
    (hn : ∀ r, r <+: q → n'.kind? r = if r = s then x else n.kind? r)
    (hm : ∀ r, r <+: q → m'.kind? r = if r = s then x else m.kind? r) : AlikeAt f n' m' q := by
  refine ⟨?_, fun r hr hne => ?_⟩
  · rw [hm q (List.prefix_refl q), hn q (List.prefix_refl q), h.same]
  · by_cases hs : r = s
    · exact Or.inl (by rw [hm r hr, hn r hr, if_pos hs, if_pos hs])
    · exact (h.above r hr hne).congr ((hn r hr).trans (if_neg hs)) ((hm r hr).trans (if_neg hs))

theorem AlikeAt.near (h : AlikeAt f n m q) (hp : p <+: q) : Near f n m p := by
  by_cases hne : p = q
  · exact Or.inl (hne ▸ h.same)
  · exact h.above p hp hne

/-! ## Trees with more directories -/

/-- A tree with all directories of another one, and perhaps more. -/
def Extends (o n : Node) : Prop :=
  ∀ q, o.kind? q = some .directory → n.kind? q = some .directory

theorem Spreads.toExtends (h : Spreads n m) : Extends n m := by
  intro q hq
  rcases h q with hsame | ⟨hnone, -⟩
  · exact hsame.trans hq
  · rw [hq] at hnone
    cases hnone

section Extended

variable {o : Node} {cs : List Component}

/-- On the way of a path, trees that are alike at the places it hinges on differ at most by a
directory. -/
theorem near_of_hinges (hn : Extends o n) (hm : Extends o m) (hcs : ∀ c ∈ cs, IsStep c)
    (h : ∀ q, Hinges o cs p q → AlikeAt f n m q) : Near f n m p := by
  rcases Hinges.covers o p hcs with hdir | ⟨q, hq, hpq⟩
  · exact Or.inl ((hm p hdir).trans (hn p hdir).symm)
  · exact (h q hq).near hpq

/-- **The same is found at the end of a path** in trees that are alike at the places it hinges
on. -/
theorem lookup_alike (hn : Extends o n) (hm : Extends o m) (hcs : ∀ c ∈ cs, IsStep c)
    (h : ∀ q, Hinges o cs p q → AlikeAt f n m q) : lookup m cs p = lookup n cs p := by
  induction cs generalizing p with
  | nil =>
    have hsame := (h p rfl).same
    unfold lookup
    rw [follow, follow]
    simp only
    rw [hsame]
  | cons c cs ih =>
    have hrest := fun b hb => hcs b (List.mem_cons_of_mem c hb)
    cases hcs c List.mem_cons_self with
    | up =>
      have hsame : m.kind? p = n.kind? p := by
        by_cases hdir : o.kind? p = some .directory
        · exact (hm p hdir).trans (hn p hdir).symm
        · exact (h p (Or.inl ⟨hdir, rfl⟩)).same
      rw [lookup_up, lookup_up, hsame, ih hrest fun q hq => h q (Or.inr hq)]
    | @name k _ _ =>
      have hnext := ih hrest fun q hq => h q (Or.inr hq)
      rw [lookup_name, lookup_name, hnext]
      rcases near_of_hinges hn hm hcs h with hsame | ⟨hnone, hdir, -⟩
      · rw [hsame]
      · -- nothing is behind a missing place, whether or not the second tree goes on there
        have hk : isName k = true := by
          by_contra hk
          have hne : o.kind? p ≠ some .directory := fun hp => by
            rw [hn p hp] at hnone
            cases hnone
          have hsame := (h p (Or.inl ⟨by simpa using hk, Or.inl ⟨hne, rfl⟩⟩)).same
          rw [hnone, hdir] at hsame
          cases hsame
        have hbelow : n.kind? (p ++ [k]) = none := kind?_below (by simp [hnone]) k []
        rw [hnone, hdir, if_pos hk, lookup_of_none hrest hbelow]

/-! ## Making directories -/

theorem kind?_put_empty {k : String} (hdir : n.kind? p = some .directory)
    (hnone : n.kind? (p ++ [k]) = none) (r : List String) :
    (Node.put .empty (p ++ [k]) n).kind? r =
      if r = p ++ [k] then some .directory else n.kind? r :=
  kind?_put (fun _ _ => rfl) hdir (by simp [hnone]) r

/-- All directories that were to be made are there in the end. -/
theorem withDirectories_ok (hcs : ∀ c ∈ cs, IsStep c) (hdir : n.kind? p = some .directory)
    (h : (withDirectories f cs p n).1 = .ok ()) (xs : List Component) (hxs : xs <+: cs) :
    (withDirectories f cs p n).2.kind? (walk xs p) = some .directory := by
  induction cs generalizing p n xs with
  | nil =>
    rw [List.prefix_nil.mp hxs]
    exact hdir
  | cons c cs ih =>
    have hrest := fun b hb => hcs b (List.mem_cons_of_mem c hb)
    cases xs with
    | nil => exact (spreads_withDirectories f (c :: cs) p n).toExtends p hdir
    | cons x xs =>
      obtain ⟨rfl, htail⟩ := List.cons_prefix_cons.mp hxs
      cases hcs x List.mem_cons_self with
      | up => exact ih hrest (directory_above hdir (List.dropLast_prefix p)) h xs htail
      | @name k _ _ =>
        rcases withDirectories_cases f k cs p n with ⟨hkind, heq⟩ | ⟨r, heq⟩ | ⟨hnone, -, heq⟩
        · rw [heq] at h ⊢
          exact ih hrest hkind h xs htail
        · rw [heq] at h
          cases h
        · rw [heq] at h ⊢
          exact ih hrest ((kind?_put_empty hdir hnone _).trans (if_pos rfl)) h xs htail

theorem Extends.put_empty {k : String} (h : Extends o n) (hdir : n.kind? p = some .directory)
    (hnone : n.kind? (p ++ [k]) = none) : Extends o (Node.put .empty (p ++ [k]) n) := by
  intro q hq
  rw [kind?_put_empty hdir hnone]
  split
  · rfl
  · exact h q hq

/-- Making the directories on the way of a path leaves a tree alike at every place that is above
none of those the path hinges on. -/
theorem withDirectories_frame {ss : List Component} (hss : ss <+: cs) (hn : Extends o n)
    (hcs : ∀ c ∈ cs, IsStep c) (hdir : n.kind? p = some .directory)
    (hq : ∀ t, Hinges o cs p t → ¬ q <+: t) : AlikeAt f n (withDirectories f ss p n).2 q := by
  induction ss generalizing cs p n with
  | nil => exact AlikeAt.refl f n q
  | cons c ss ih =>
    obtain ⟨rest, rfl⟩ := hss
    have hrest : ∀ b ∈ ss ++ rest, IsStep b := fun b hb => hcs b (List.mem_cons_of_mem c hb)
    have hlater := List.prefix_append ss rest
    cases hcs c List.mem_cons_self with
    | up =>
      have habove := directory_above hdir (List.dropLast_prefix p)
      exact ih hlater hn hrest habove fun t ht => hq t (Or.inr ht)
    | @name k _ _ =>
      have hnext := fun t ht => hq t (Or.inr ht)
      rcases withDirectories_cases f k ss p n with ⟨hkind, heq⟩ | ⟨r, heq⟩ | ⟨hnone, hmaking, heq⟩
      · rw [heq]
        exact ih hlater hn hrest hkind hnext
      · rw [heq]
        exact AlikeAt.refl f n q
      · rw [heq]
        have hput := kind?_put_empty hdir hnone
        -- the new directory was missing before, so it is above a place the path hinges on
        have hnot : q ≠ p ++ [k] := by
          rintro rfl
          rcases Hinges.covers o (p ++ [k]) hrest with hold | ⟨t, ht, hpt⟩
          · rw [hn _ hold] at hnone
            cases hnone
          · exact hnext t ht hpt
        have hmade : AlikeAt f n (Node.put .empty (p ++ [k]) n) q := by
          refine ⟨(hput q).trans (if_neg hnot), fun r _ _ => ?_⟩
          unfold Near
          rw [hput]
          by_cases hr : r = p ++ [k]
          · rw [if_pos hr, hr]
            exact Or.inr ⟨hnone, rfl, hmaking⟩
          · exact Or.inl (if_neg hr)
        exact hmade.trans (ih hlater (hn.put_empty hdir hnone) hrest
          ((hput _).trans (if_pos rfl)) hnext)

/-- A directory that is made in the first tree, where the second has one already, leaves them
alike. -/
theorem AlikeAt.catchUp {k : String} (h : AlikeAt f n m q) (hdir : n.kind? p = some .directory)
    (hn : n.kind? (p ++ [k]) = none) (hm : m.kind? (p ++ [k]) = some .directory) :
    AlikeAt f (Node.put .empty (p ++ [k]) n) m q := by
  have hput := kind?_put_empty hdir hn
  refine ⟨?_, fun r hr hne => ?_⟩
  · rw [hput, if_neg, h.same]
    rintro rfl
    rw [h.same, hn] at hm
    cases hm
  · by_cases hs : r = p ++ [k]
    · exact Or.inl (by rw [hput, if_pos hs, hs, hm])
    · exact (h.above r hr hne).congr ((hput r).trans (if_neg hs)) rfl

/-- **Making the directories on the way of a path answers alike** in trees that are alike at the
places it hinges on, and leaves them alike. -/
theorem withDirectories_alike {Q : List String → Prop} {ss : List Component} (hss : ss <+: cs)
    (hQ : ∀ q, Q q → AlikeAt f n m q) (hn : Extends o n) (hm : Extends o m)
    (hcs : ∀ c ∈ cs, IsStep c) (hndir : n.kind? p = some .directory)
    (hmdir : m.kind? p = some .directory) (h : ∀ q, Hinges o cs p q → Q q) :
    (withDirectories f ss p m).1 = (withDirectories f ss p n).1 ∧
      ∀ q, Q q → AlikeAt f (withDirectories f ss p n).2 (withDirectories f ss p m).2 q := by
  induction ss generalizing cs p n m with
  | nil => exact ⟨rfl, hQ⟩
  | cons c ss ih =>
    obtain ⟨rest, rfl⟩ := hss
    have hrest : ∀ b ∈ ss ++ rest, IsStep b := fun b hb => hcs b (List.mem_cons_of_mem c hb)
    have hlater := List.prefix_append ss rest
    cases hcs c List.mem_cons_self with
    | up =>
      have habove := List.dropLast_prefix p
      exact ih hlater hQ hn hm hrest (directory_above hndir habove) (directory_above hmdir habove)
        fun q hq => h q (Or.inr hq)
    | @name k _ _ =>
      have hnext := fun q hq => h q (Or.inr hq)
      have hnear : Near f n m (p ++ [k]) :=
        near_of_hinges hn hm hrest fun q hq => hQ q (hnext q hq)
      rw [withDirectories_name, withDirectories_name]
      rcases hnear with hsame | ⟨hnone, hdir, hmaking⟩
      · rw [hsame]
        cases hkind : n.kind? (p ++ [k]) with
        | some x =>
          cases x with
          | file b => exact ⟨rfl, hQ⟩
          | directory => exact ih hlater hQ hn hm hrest hkind (hsame.trans hkind) hnext
        | none =>
          have hkind' := hsame.trans hkind
          dsimp only
          cases f.making (p ++ [k]) with
          | some text => exact ⟨rfl, hQ⟩
          | none =>
            cases isName k with
            | false => exact ⟨rfl, hQ⟩
            | true =>
              have hputn := kind?_put_empty hndir hkind
              have hputm := kind?_put_empty hmdir hkind'
              exact ih hlater (fun q hq => (hQ q hq).update (fun r _ => hputn r) fun r _ => hputm r)
                (hn.put_empty hndir hkind) (hm.put_empty hmdir hkind') hrest
                ((hputn _).trans (if_pos rfl)) ((hputm _).trans (if_pos rfl)) hnext
      · -- the place of an impossible name is one that the path hinges on
        have hk : isName k = true := by
          by_contra hk
          have hsame := (hQ _ (h _ (Or.inl ⟨by simpa using hk, Or.inr rfl⟩))).same
          rw [hnone, hdir] at hsame
          cases hsame
        rw [hnone, hdir]
        dsimp only
        rw [hmaking]
        dsimp only
        rw [if_pos hk]
        exact ih hlater (fun q hq => (hQ q hq).catchUp hndir hnone hdir)
          (hn.put_empty hndir hnone) hm hrest
          ((kind?_put_empty hndir hnone _).trans (if_pos rfl)) hdir hnext

end Extended

end Alike

/-- The directories above the end of a path. -/
theorem answer_makeDirectories_parent {d : Disk} {path : String}
    (hfront : steps path ≠ [] ∨ Path.isAbsolute path = false) :
    d.answer (.makeDirectories (Path.parent path)) =
      match d.fault (.makeDirectories (Path.parent path)) with
      | some text => (.error (.other text), d)
      | none =>
        if isPath (Path.parent path) then
          ((withDirectories d.faults (steps path).dropLast (d.start path) d.root).1,
            { d with
              root := (withDirectories d.faults (steps path).dropLast (d.start path) d.root).2 })
        else (.error .invalidName, d) := by
  unfold answer
  cases d.fault (.makeDirectories (Path.parent path)) with
  | some text => rfl
  | none =>
    change d.makeDirectories (Path.parent path) = _
    rw [makeDirectories_eq, Path.steps_parent hfront, start_parent hfront]
    rfl

/-- Once they are made, they are there. -/
theorem cleared_of_makeDirectories {d d' : Disk} {path : String}
    (hstart : d.root.kind? (d.start path) = some .directory)
    (hfront : steps path ≠ [] ∨ Path.isAbsolute path = false)
    (h : d.answer (.makeDirectories (Path.parent path)) = (.ok (), d')) : d'.Cleared path := by
  have hcs : ∀ c ∈ (steps path).dropLast, IsStep c :=
    fun c hc => Path.isStep_of_mem_steps (List.dropLast_subset _ hc)
  rw [answer_makeDirectories_parent hfront] at h
  split at h
  · cases h
  · split at h
    · obtain ⟨hok, hd'⟩ := Prod.mk.inj h
      rw [← hd']
      exact fun xs hxs => withDirectories_ok hcs hstart hok xs hxs
    · cases h

end ApiSurface.Disk
