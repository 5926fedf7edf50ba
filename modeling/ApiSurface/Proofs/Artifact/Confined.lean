import ApiSurface.Proofs.Artifact.Settle
import ApiSurface.Proofs.Disk.Alike

/-!
# What settling artifacts leaves alone

Artifacts change the disk only at the places of their files, but for directories above these places
and files with new names.

* `Disk.Confined`: changes of a disk are confined to some places;
* `install_frame`, `persist_away`, `persist_files`: what replacing a file leaves alone;
* **`settleAll_confined`**: artifacts change nothing away from their files.
-/

namespace ApiSurface

open ApiSurface.Action ApiSurface.Disk
open ApiSurface.Path (steps)

namespace Disk

/-- Changes are confined: the disk is alike wherever none of some places is above or below, and all
files but some are as they were, or new ones under new names. -/
structure Confined (o : Disk) (T S : List String → Prop) (d d' : Disk) : Prop where
  grows : Grows d d'
  away : ∀ q, (∀ t, T t → ¬ t <+: q ∧ ¬ q <+: t) → (∀ r, r <+: q → ¬ o.IsNew r) →
    AlikeAt o.faults d.root d'.root q
  files : ∀ q, ¬ S q → d'.fileAt q = d.fileAt q ∨ d.fileAt q = none ∧ o.IsNew q

theorem Grows.isNew_iff {o d : Disk} (h : Grows o d) (q : List String) :
    d.IsNew q ↔ o.IsNew q := by
  unfold IsNew
  rw [h.newName]

namespace Confined

variable {α β : Type} {o d d' d'' : Disk} {T T' S S' : List String → Prop}

theorem refl (o : Disk) (T S : List String → Prop) (d : Disk) : Confined o T S d d :=
  ⟨Grows.refl d, fun q _ _ => AlikeAt.refl o.faults d.root q, fun _ _ => Or.inl rfl⟩

theorem trans (h : Confined o T S d d') (h' : Confined o T S d' d'') : Confined o T S d d'' := by
  refine ⟨h.grows.trans h'.grows, fun q hq hnew => ?_, fun q hq => ?_⟩
  · exact (h.away q hq hnew).trans (h'.away q hq hnew)
  · rcases h'.files q hq with hsame | ⟨hnone, hnew⟩
    · rw [hsame]
      exact h.files q hq
    · rcases h.files q hq with hsame | hleft
      · exact Or.inr ⟨hsame ▸ hnone, hnew⟩
      · exact Or.inr hleft

theorem mono (h : Confined o T S d d') (hT : ∀ q, T q → T' q) (hS : ∀ q, S q → S' q) :
    Confined o T' S' d d' :=
  ⟨h.grows, fun q hq => h.away q fun t ht => hq t (hT t ht), fun q hq => h.files q (mt (hS q) hq)⟩

theorem bind {m : Action α} {f : α → Action β} (h : Confined o T S d (m.on d).2)
    (hf : ∀ a d', m.on d = (.ok a, d') → Confined o T S d' ((f a).on d').2) :
    Confined o T S d ((m >>= f).on d).2 := by
  rcases hm : m.on d with ⟨r, d'⟩
  rw [hm] at h
  rw [on_bind, hm]
  cases r with
  | ok a => exact h.trans (hf a d' hm)
  | error x => exact h

theorem of_reads {m : Action α} (hm : m.Reads) (o : Disk) (T S : List String → Prop) (d : Disk) :
    Confined o T S d (m.on d).2 := by
  rw [hm.on_snd]
  exact refl o T S d

theorem forAll {f : α → Action β} {as : List α} (hgrows : Grows o d)
    (hf : ∀ a ∈ as, ∀ d', Grows o d' → Confined o T S d' ((f a).on d').2) :
    Confined o T S d ((Action.forAll f as).on d).2 := by
  induction as generalizing d with
  | nil => exact refl o T S d
  | cons a as ih =>
    rw [forAll_cons]
    have hfirst := hf a List.mem_cons_self d hgrows
    refine hfirst.bind fun b d₁ hb => ?_
    rw [hb] at hfirst
    have hrest := ih (hgrows.trans hfirst.grows) fun x hx => hf x (List.mem_cons_of_mem a hx)
    exact hrest.bind fun bs d₂ _ => refl o T S d₂

end Confined

end Disk

/-! ## Replacing a file -/

section Persist

variable {o d d' : Disk} {T S : List String → Prop} {path contents : String} {q : List String}

/-- Only the new file and the one at the path change. -/
theorem install_frame {f : Temporary} {b : ByteArray} (h : d.Holds f b) {r : List String}
    (hspot : r ≠ d.spot f) (htarget : r ≠ d.target path) :
    ((install f path contents).on d).2.root.kind? r = d.root.kind? r := by
  obtain ⟨c, hgrows, hholds, hframe, -⟩ := answer_fill h contents
  rw [on_install]
  split
  · next x d₁ hfill =>
    rw [hfill] at hgrows hholds hframe
    obtain ⟨-, hdiscard⟩ := answer_discard hholds
    rw [hdiscard r (by rwa [hgrows.spot_eq]), hframe r hspot]
  · next u d₁ hfill =>
    rw [hfill] at hgrows hholds hframe
    split
    · next x d₂ hmove =>
      cases answer_move_error hmove
      obtain ⟨-, hdiscard⟩ := answer_discard hholds
      rw [hdiscard r (by rwa [hgrows.spot_eq]), hframe r hspot]
    · next v d₂ hmove =>
      obtain ⟨-, -, -, -, hkind⟩ := move_ok hholds (answer_move_ok hmove)
      rw [hgrows.target_eq, hgrows.spot_eq] at hkind
      rw [hkind, if_neg htarget, if_neg hspot, hframe r hspot]

theorem created_away {directory : String} {f : Temporary}
    (h : d.answer (.createIn directory) = (.ok f, d')) (htarget : ∀ r, r <+: q → r ≠ d.target path)
    (hnew : ∀ r, r <+: q → ¬ d.IsNew r) (r : List String) (hr : r <+: q) :
    ((install f path contents).on d').2.root.kind? r = d.root.kind? r := by
  obtain ⟨hgrows, ⟨ns, hname⟩, -, hholds, hframe⟩ := createIn_ok (answer_createIn_ok h)
  have hspot : r ≠ d.spot f := by
    rintro rfl
    exact hnew _ hr ⟨d.target f.directory, ns, by rw [spot, hname]⟩
  rw [← hframe r hspot]
  refine install_frame hholds ?_ ?_
  · rwa [hgrows.spot_eq]
  · rw [hgrows.target_eq]
    exact htarget r hr

/-- Away from the places that its path hinges on, replacing a file may make directories, but changes
nothing else. -/
theorem persist_away (hgrows : Grows o d) (hhere : o.root.kind? o.here = some .directory)
    (hfront : steps path ≠ [] ∨ Path.isAbsolute path = false)
    (hq : ∀ t, o.HingesOn path t → ¬ t <+: q ∧ ¬ q <+: t) (hnew : ∀ r, r <+: q → ¬ o.IsNew r) :
    AlikeAt o.faults d.root ((persist path contents).on d).2.root q := by
  have hmade : AlikeAt o.faults d.root
      (d.answer (.makeDirectories (Path.parent path))).2.root q := by
    rw [answer_makeDirectories_parent hfront, hgrows.faults, hgrows.start_eq]
    split
    · exact AlikeAt.refl _ _ _
    · split
      · have hstart := hgrows.directories _ (start_directory hhere path)
        exact withDirectories_frame (List.dropLast_prefix _) hgrows.directories
          (fun c hc => Path.isStep_of_mem_steps hc) hstart
          fun t ht => (hq t (hingesOn_iff.mpr ht)).2
      · exact AlikeAt.refl _ _ _
  have hgrows' := hgrows.trans (d.answer_makeDirectories (Path.parent path)).1
  rw [on_persist]
  rcases hmake : d.answer (.makeDirectories (Path.parent path)) with ⟨made, d₁⟩
  rw [hmake] at hmade hgrows'
  cases made with
  | error r => exact hmade
  | ok u =>
    dsimp only
    rcases hcreate : d₁.answer (.createIn (Path.parent path)) with ⟨created, d₂⟩
    cases created with
    | error r =>
      cases answer_createIn_error hcreate
      exact hmade
    | ok f =>
      refine hmade.trans (.of_unchanged (created_away hcreate (fun r hr => ?_) fun r hr => ?_))
      · rw [hgrows'.target_eq]
        rintro rfl
        exact (hq _ (hingesOn_target o path)).1 hr
      · rw [hgrows'.isNew_iff]
        exact hnew r hr

theorem persist_files (d : Disk) (path contents : String) :
    Grows d ((persist path contents).on d).2 ∧
      ∀ q, q ≠ d.target path → ((persist path contents).on d).2.fileAt q = d.fileAt q ∨
        d.fileAt q = none ∧ d.IsNew q := by
  rcases h : (persist path contents).on d with ⟨r, d'⟩
  cases r with
  | ok u =>
    have hreplaced := persist_ok h
    refine ⟨hreplaced.grows, fun q hq => Or.inl ?_⟩
    rw [hreplaced.files, if_neg hq]
  | error e => exact ⟨(persist_error h).grows, fun q _ => (persist_error h).files q⟩

theorem persist_confined (hgrows : Grows o d) (hhere : o.root.kind? o.here = some .directory)
    (hfront : steps path ≠ [] ∨ Path.isAbsolute path = false)
    (hT : ∀ q, o.HingesOn path q → T q) (hS : S (o.target path)) (contents : String) :
    Confined o T S d ((persist path contents).on d).2 := by
  obtain ⟨hgrows', hfiles⟩ := persist_files d path contents
  refine ⟨hgrows', fun q hq hnew => ?_, fun q hq => ?_⟩
  · exact persist_away hgrows hhere hfront (fun t ht => hq t (hT t ht)) hnew
  · rw [← hgrows.isNew_iff]
    refine hfiles q ?_
    rintro rfl
    rw [hgrows.target_eq] at hq
    exact hq hS

end Persist

/-! ## Artifacts -/

section Settle

variable {o d d' : Disk} {T S : List String → Prop} {path root : String} {a : Artifact}
  {artifacts : List Artifact}

/-- At the top of the tree there is neither a file nor nothing. -/
theorem front_of_existing {x : Option ByteArray} (hgrows : Grows o d)
    (hhere : o.root.kind? o.here = some .directory) (h : (existing path).on d = (.ok x, d')) :
    steps path ≠ [] ∨ Path.isAbsolute path = false := by
  by_contra hne
  obtain ⟨hsteps, habsolute⟩ := not_or.mp hne
  have hnonempty : path.isEmpty = false := by
    by_contra hempty
    have hpath : path = "" := by simpa using hempty
    subst hpath
    exact habsolute (by decide)
  have hfault := (existing_ok h).2.1
  -- a path without steps leads to where it starts, and there is a directory
  have hread : ∃ r, d.read path = .error r ∧ r ≠ .missing := by
    have hstart := hgrows.start_directory hhere path
    rw [read_eq_lookup, not_not.mp hsteps, lookup, follow]
    cases isPath path <;> simp [hnonempty, hstart]
  obtain ⟨r, hr, hne⟩ := hread
  rw [on_existing, answer_read_fst, hfault, hr] at h
  cases r with
  | missing => exact hne rfl
  | notDirectory | isDirectory | invalidName | other => cases h

theorem writeArtifact_confined (hgrows : Grows o d) (hhere : o.root.kind? o.here = some .directory)
    (hT : ∀ q, o.HingesOn (a.destination root) q → T q) (hS : S (o.destination root a)) :
    Confined o T S d ((writeArtifact root a).on d).2 := by
  refine (Confined.of_reads (reads_existing _) o T S d).bind fun x d₁ hx => ?_
  cases (existing_ok hx).1
  have hfront := front_of_existing hgrows hhere hx
  have hpersist := persist_confined hgrows hhere hfront hT hS a.contents
  cases x with
  | none => exact hpersist.bind fun _ d₂ _ => Confined.refl o T S d₂
  | some b =>
    dsimp only
    split
    · exact Confined.refl o T S d
    · exact hpersist.bind fun _ d₂ _ => Confined.refl o T S d₂

/-- **Artifacts change nothing away from their files.** -/
theorem settleAll_confined (mode : Mode) (hgrows : Grows o d)
    (hhere : o.root.kind? o.here = some .directory)
    (hT : ∀ a ∈ artifacts, ∀ q, o.HingesOn (a.destination root) q → T q)
    (hS : ∀ a ∈ artifacts, S (o.destination root a)) :
    Confined o T S d ((settleAll root mode artifacts).on d).2 := by
  cases mode with
  | write =>
    have hall := Confined.forAll hgrows fun a ha d' hgrows' =>
      writeArtifact_confined hgrows' hhere (hT a ha) (hS a ha)
    exact hall.bind fun os d₁ _ => Confined.refl o T S d₁
  | check => exact Confined.of_reads (reads_check root artifacts) o T S d
  | stdout => exact Confined.refl o T S d

end Settle

end ApiSurface
