import ApiSurface.Proofs.Artifact.Abreast
import ApiSurface.Proofs.Artifact.Confined

/-!
# Settling artifacts on two disks side by side

What a task does with its artifacts ends alike on two disks that are alike at the places of their
files.

* `Lockstep`: an action ends alike on both disks and leaves them alike;
* `Lockstep.bind`, `Lockstep.forAll`: actions one after another;
* **`persist_lockstep`**: a file that is replaced;
* `writeArtifact_lockstep`, `checkArtifact_lockstep`, **`settleAll_lockstep`**: artifacts.
-/

namespace ApiSurface

open ApiSurface.Action ApiSurface.Disk
open ApiSurface.Path (steps)

/-- There is a working directory, faults depend only on what is asked for, and no place, nor one
above it, has a new name. -/
structure Calm (o : Disk) (Q : List String → Prop) : Prop where
  here : o.root.kind? o.here = some .directory
  steady : o.faults.Steady
  notNew : ∀ q, Q q → ∀ r, r <+: q → ¬ o.IsNew r

/-- An action ends alike on two disks, and leaves them alike. -/
structure Lockstep {α : Type} (o : Disk) (Q : List String → Prop) (d e : Disk)
    (m n : Action α) : Prop where
  result : (n.on e).1 = (m.on d).1
  abreast : Abreast o Q (m.on d).2 (n.on e).2

namespace Lockstep

variable {α β : Type} {o d e : Disk} {Q : List String → Prop}

/-- What goes on alike ends alike. -/
theorem later {m n m' n' : Action α} {d' e' : Disk} (hd : m.on d = m'.on d')
    (he : n.on e = n'.on e') (h : Lockstep o Q d' e' m' n') : Lockstep o Q d e m n := by
  constructor
  · rw [hd, he]
    exact h.result
  · rw [hd, he]
    exact h.abreast

theorem done (h : Abreast o Q d e) (r : Except Failure α) :
    Lockstep o Q d e (.done r) (.done r) := ⟨rfl, h⟩

theorem bind {m n : Action α} {f g : α → Action β} (h : Lockstep o Q d e m n)
    (hf : ∀ a d' e', m.on d = (.ok a, d') → Abreast o Q d' e' → Lockstep o Q d' e' (f a) (g a)) :
    Lockstep o Q d e (m >>= f) (n >>= g) := by
  obtain ⟨hresult, habreast⟩ := h
  rcases hm : m.on d with ⟨r, d'⟩
  rcases hn : n.on e with ⟨r', e'⟩
  rw [hm, hn] at hresult habreast
  cases hresult
  cases r with
  | ok a =>
    obtain ⟨hrest, hrests⟩ := hf a d' e' hm habreast
    constructor
    · rw [on_bind_ok hm, on_bind_ok hn, hrest]
    · rw [on_bind_ok hm, on_bind_ok hn]
      exact hrests
  | error x =>
    constructor
    · rw [on_bind, on_bind, hm, hn]
    · rw [on_bind, on_bind, hm, hn]
      exact habreast

theorem forAll {f : α → Action β} {as : List α} (h : Abreast o Q d e)
    (hf : ∀ a ∈ as, ∀ d' e', Abreast o Q d' e' → Lockstep o Q d' e' (f a) (f a)) :
    Lockstep o Q d e (Action.forAll f as) (Action.forAll f as) := by
  induction as generalizing d e with
  | nil => exact .done h (.ok [])
  | cons a as ih =>
    rw [forAll_cons]
    refine (hf a List.mem_cons_self d e h).bind fun b d₁ e₁ _ h₁ => ?_
    have hrest := ih h₁ fun x hx => hf x (List.mem_cons_of_mem a hx)
    exact hrest.bind fun bs d₂ e₂ _ h₂ => .done h₂ (.ok (b :: bs))

/-- An action that only reads, and ends alike. -/
theorem of_reads {m : Action α} (h : Abreast o Q d e) (hm : m.Reads)
    (hresult : (m.on e).1 = (m.on d).1) : Lockstep o Q d e m m := by
  refine ⟨hresult, ?_⟩
  rw [hm.on_snd, hm.on_snd]
  exact h

end Lockstep

/-! ## Replacing a file -/

section Persist

variable {o d e : Disk} {Q : List String → Prop} {path : String}

theorem install_lockstep {f g : Temporary} {b : ByteArray} (h : Twins o Q d e f g b)
    (hcalm : Calm o Q) (hQ : Q (o.target path)) (hd : d.Cleared path) (he : e.Cleared path)
    (contents : String) :
    Lockstep o Q d e (install f path contents) (install g path contents) := by
  obtain ⟨r, d₁, e₁, c, hfilld, hfille, hfilled, hgrowsd, hgrowse⟩ := h.fill hcalm.steady contents
  cases r with
  | error r =>
    constructor <;> simp only [on_install, hfilld, hfille]
    exact hfilled.discard
  | ok u =>
    rcases hfilled.move hcalm.steady hQ (hd.grows hgrowsd) (he.grows hgrowse) with
      ⟨r, hd₁, he₁⟩ | ⟨d₂, e₂, hd₂, he₂, habreast⟩
    · constructor <;> simp only [on_install, hfilld, hfille, hd₁, he₁]
      exact hfilled.discard
    · constructor <;> simp only [on_install, hfilld, hfille, hd₂, he₂]
      exact habreast

/-- **A file is replaced alike on both disks.** -/
theorem persist_lockstep (h : Abreast o Q d e) (hcalm : Calm o Q)
    (hfront : steps path ≠ [] ∨ Path.isAbsolute path = false)
    (hQ : ∀ q, o.HingesOn path q → Q q) (contents : String) :
    Lockstep o Q d e (persist path contents) (persist path contents) := by
  obtain ⟨r, d₁, e₁, hmaked, hmakee, h₁⟩ := h.makeDirectories hcalm.steady hcalm.here hfront hQ
  cases r with
  | error r =>
    constructor <;> simp only [on_persist, hmaked, hmakee]
    exact h₁
  | ok u =>
    have hstartd := h.left.start_directory hcalm.here path
    have hstarte := h.right.start_directory hcalm.here path
    have hcleard := cleared_of_makeDirectories hstartd hfront hmaked
    have hcleare := cleared_of_makeDirectories hstarte hfront hmakee
    rcases h₁.createIn hcalm.steady hfront hcleard hcleare with
      ⟨r, hd₁, he₁⟩ | ⟨m, d₂, n, e₂, hd₂, he₂⟩
    · constructor <;> simp only [on_persist, hmaked, hmakee, hd₁, he₁]
      exact h₁
    · have htwins := Twins.of_createIn h₁ hcalm.notNew hd₂ he₂
      have hgrowsd := (createIn_ok (answer_createIn_ok hd₂)).1
      have hgrowse := (createIn_ok (answer_createIn_ok he₂)).1
      have hinstalled := install_lockstep htwins hcalm (hQ _ (hingesOn_target o path))
        (hcleard.grows hgrowsd) (hcleare.grows hgrowse) contents
      exact .later (by simp only [on_persist, hmaked, hd₂]) (by simp only [on_persist, hmakee, he₂])
        hinstalled

end Persist

/-! ## Artifacts -/

section Settle

variable {o d e : Disk} {Q : List String → Prop} {path root : String} {a : Artifact}
  {artifacts : List Artifact}

theorem existing_lockstep (h : Abreast o Q d e) (hQ : ∀ q, o.HingesOn path q → Q q) :
    Lockstep o Q d e (existing path) (existing path) := by
  refine .of_reads h (reads_existing path) ?_
  rw [on_existing, on_existing, h.read_eq hQ]
  split <;> rfl

theorem writeArtifact_lockstep (h : Abreast o Q d e) (hcalm : Calm o Q)
    (hQ : ∀ q, o.HingesOn (a.destination root) q → Q q) :
    Lockstep o Q d e (writeArtifact root a) (writeArtifact root a) := by
  refine (existing_lockstep h hQ).bind fun x d₁ e₁ hx h₁ => ?_
  have hfront := front_of_existing h.left hcalm.here hx
  have hpersist : ∀ status, Lockstep o Q d₁ e₁
      (do persist (a.destination root) a.contents
          return (⟨a.destination root, status, a.checksum⟩ : Outcome))
      (do persist (a.destination root) a.contents
          return (⟨a.destination root, status, a.checksum⟩ : Outcome)) := by
    intro status
    have hreplaced := persist_lockstep h₁ hcalm hfront hQ a.contents
    exact hreplaced.bind fun _ d₂ e₂ _ h₂ => .done h₂ _
  cases x with
  | none => exact hpersist .created
  | some b =>
    dsimp only
    split
    · exact .done h₁ _
    · exact hpersist .updated

theorem checkArtifact_lockstep (h : Abreast o Q d e)
    (hQ : ∀ q, o.HingesOn (a.destination root) q → Q q) :
    Lockstep o Q d e (checkArtifact root a) (checkArtifact root a) := by
  refine (existing_lockstep h hQ).bind fun x d₁ e₁ _ h₁ => ?_
  cases x with
  | none => exact .done h₁ _
  | some b =>
    dsimp only
    split
    · exact .done h₁ _
    · have hagain : Lockstep o Q d₁ e₁
          (demand (.read (a.destination root)) fun r => .disk r.message)
          (demand (.read (a.destination root)) fun r => .disk r.message) := by
        refine .of_reads h₁ (.demand rfl _) ?_
        rw [on_demand, on_demand, h₁.read_eq hQ]
      refine hagain.bind fun again d₂ e₂ _ h₂ => ?_
      exact (Lockstep.done h₂ _).bind fun current d₃ e₃ _ h₃ => .done h₃ _

/-- **Artifacts are settled alike on both disks.** -/
theorem settleAll_lockstep (h : Abreast o Q d e) (hcalm : Calm o Q) (mode : Mode)
    (hQ : ∀ a ∈ artifacts, ∀ q, o.HingesOn (a.destination root) q → Q q) :
    Lockstep o Q d e (settleAll root mode artifacts) (settleAll root mode artifacts) := by
  cases mode with
  | write =>
    have hall := Lockstep.forAll h fun a ha d' e' h' => writeArtifact_lockstep h' hcalm (hQ a ha)
    exact hall.bind fun os d₁ e₁ _ h₁ => .done h₁ _
  | check =>
    have hall := Lockstep.forAll h fun a ha d' e' h' => checkArtifact_lockstep h' (hQ a ha)
    exact hall.bind fun os d₁ e₁ _ h₁ => .done h₁ _
  | stdout => exact .done h _

end Settle

end ApiSurface
