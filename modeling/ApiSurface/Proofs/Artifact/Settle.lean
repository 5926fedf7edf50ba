import ApiSurface.Proofs.Artifact.Persist
import ApiSurface.Proofs.Source.Reads

/-!
# Artifacts are settled one after another

* `Disk.destination`: the place of an artifact's file;
* `Disk.Shows`: the file of an artifact can be read and has its checksum;
* `Written`: what writing artifacts leaves;
* `writeArtifact_ok`, `writeArtifact_error`: what becomes of the disk with one artifact;
* **`written_of_forAll`**: what a complete run leaves.
-/

namespace ApiSurface

open ApiSurface.Action ApiSurface.Disk

namespace Disk

variable {d d' : Disk} {root : String} {a : Artifact}

/-- The place of the file of an artifact. -/
def destination (d : Disk) (root : String) (a : Artifact) : List String :=
  d.target (a.destination root)

/-- The file of an artifact can be read and has its checksum. -/
def Shows (d : Disk) (root : String) (a : Artifact) : Prop :=
  ∃ b, d.answer (.read (a.destination root)) = (.ok b, d) ∧ Checksum.ofBytes b = a.checksum

theorem Grows.destination_eq (h : Grows d d') (root : String) (a : Artifact) :
    d'.destination root a = d.destination root a := h.target_eq _

theorem answer_read_ok_iff {path : String} {b : ByteArray} :
    d.answer (.read path) = (.ok b, d) ↔
      d.faults.reading (.read path) = none ∧ d.read path = .ok b := by
  have hfault : d.fault (.read path) = d.faults.reading (.read path) := rfl
  unfold answer
  rw [hfault]
  cases d.faults.reading (.read path) with
  | none =>
    constructor
    · exact fun h => ⟨rfl, congrArg Prod.fst h⟩
    · exact fun h => Prod.ext h.2 rfl
  | some text => simp

theorem shows_iff : d.Shows root a ↔ d.faults.reading (.read (a.destination root)) = none ∧
    (a.destination root).isEmpty = false ∧ endsInDirectory (a.destination root) = false ∧
      d.place (a.destination root) = .ok (d.destination root a) ∧
        ∃ b, d.fileAt (d.destination root a) = some b ∧ Checksum.ofBytes b = a.checksum := by
  unfold Shows
  constructor
  · rintro ⟨b, hanswer, hsum⟩
    obtain ⟨hfault, hread⟩ := answer_read_ok_iff.mp hanswer
    obtain ⟨hempty, hends, hplace, hfile⟩ := read_eq_ok_iff.mp hread
    exact ⟨hfault, hempty, hends, hplace, b, hfile, hsum⟩
  · rintro ⟨hfault, hempty, hends, hplace, b, hfile, hsum⟩
    exact ⟨b, answer_read_ok_iff.mpr ⟨hfault, read_eq_ok_iff.mpr ⟨hempty, hends, hplace, hfile⟩⟩,
      hsum⟩

/-- A file goes on showing its artifact as long as it is the same. -/
theorem Shows.grows (h : d.Shows root a) (hgrows : Grows d d')
    (hfile : d'.fileAt (d.destination root a) = d.fileAt (d.destination root a)) :
    d'.Shows root a := by
  obtain ⟨hfault, hempty, hends, hplace, b, hb, hsum⟩ := shows_iff.mp h
  rw [shows_iff, hgrows.faults, hgrows.destination_eq, hfile]
  exact ⟨hfault, hempty, hends, hgrows.place_ok hplace, b, hb, hsum⟩

end Disk

/-! ## One artifact -/

section One

variable {d d' : Disk} {root : String} {a : Artifact}

theorem on_existing (path : String) : (existing path).on d =
    match (d.answer (.read path)).1 with
    | .ok b => (.ok (some b), d)
    | .error .missing => (.ok none, d)
    | .error r => (.error (.disk r.message), d) := by
  have hsnd : (d.answer (.read path)).2 = d := answer_snd_of_isReading rfl d
  unfold existing
  rw [on_call, hsnd]
  cases (d.answer (.read path)).1 with
  | ok b => rfl
  | error r => cases r <;> rfl

theorem reads_existing (path : String) : (existing path).Reads := by
  refine .call rfl fun r => ?_
  split <;> exact .done _

theorem reads_checkArtifact (root : String) (a : Artifact) : (checkArtifact root a).Reads := by
  refine (reads_existing _).bind fun x => ?_
  cases x with
  | none => exact .done _
  | some b =>
    dsimp only
    split
    · exact .done _
    · exact (Reads.demand rfl _).bind fun again => (Reads.ofExcept _).bind fun text => .done _

/-- A file that is found was read; a file that is missing is not kept from being read. -/
theorem existing_ok {path : String} {x : Option ByteArray}
    (h : (existing path).on d = (.ok x, d')) : d' = d ∧ d.faults.reading (.read path) = none ∧
      ∀ b, x = some b → d.answer (.read path) = (.ok b, d) := by
  have hsnd : (d.answer (.read path)).2 = d := answer_snd_of_isReading rfl d
  rw [on_existing] at h
  split at h
  · next b hb =>
    cases h
    have hanswer : d.answer (.read path) = (.ok b, d) := Prod.ext hb hsnd
    refine ⟨rfl, (answer_read_ok_iff.mp hanswer).1, ?_⟩
    rintro c ⟨⟩
    exact hanswer
  · next hmissing =>
    cases h
    refine ⟨rfl, ?_, nofun⟩
    by_contra hne
    obtain ⟨text, htext⟩ := Option.ne_none_iff_exists'.mp hne
    have hfault : d.fault (.read path) = some text := htext
    rw [answer, hfault] at hmissing
    cases hmissing
  · cases h

/-- What becomes of an artifact whose file has its checksum. -/
def Artifact.unchanged (root : String) (a : Artifact) : Outcome :=
  ⟨a.destination root, .unchanged, a.checksum⟩

theorem existing_of_shows (h : d.Shows root a) : ∃ b,
    (existing (a.destination root)).on d = (.ok (some b), d) ∧
      Checksum.ofBytes b = a.checksum := by
  obtain ⟨b, hanswer, hsum⟩ := h
  refine ⟨b, ?_, hsum⟩
  rw [on_existing, hanswer]

theorem writeArtifact_of_shows (h : d.Shows root a) :
    (writeArtifact root a).on d = (.ok (a.unchanged root), d) := by
  obtain ⟨b, hexisting, hsum⟩ := existing_of_shows h
  unfold writeArtifact
  rw [on_bind_ok hexisting]
  simp only [hsum, if_true]
  rfl

theorem checkArtifact_of_shows (h : d.Shows root a) :
    (checkArtifact root a).on d = (.ok (a.unchanged root), d) := by
  obtain ⟨b, hexisting, hsum⟩ := existing_of_shows h
  unfold checkArtifact
  rw [on_bind_ok hexisting]
  simp only [hsum, if_true]
  rfl

/-- A comparison finds no drift only where the file has the checksum. -/
theorem shows_of_checkArtifact {o : Outcome} (h : (checkArtifact root a).on d = (.ok o, d'))
    (hdrift : o.isDrift = false) : d.Shows root a := by
  unfold checkArtifact at h
  obtain ⟨x, d₁, hexisting, h⟩ := exists_of_on_bind_ok h
  obtain ⟨rfl, -, hread⟩ := existing_ok hexisting
  cases x with
  | none =>
    cases h
    cases hdrift
  | some b =>
    by_cases hsum : Checksum.ofBytes b = a.checksum
    · exact ⟨b, hread b rfl, hsum⟩
    · simp only [hsum, if_false] at h
      obtain ⟨_, _, -, h⟩ := exists_of_on_bind_ok h
      obtain ⟨_, _, -, h⟩ := exists_of_on_bind_ok h
      cases h
      cases hdrift

/-- An artifact is written by leaving its file alone or by replacing it. -/
theorem writeArtifact_ok {o : Outcome} (h : (writeArtifact root a).on d = (.ok o, d')) :
    d.faults.reading (.read (a.destination root)) = none ∧
      (d.Shows root a ∧ d' = d ∨ Replaced d d' (a.destination root) a.contents.toUTF8) := by
  unfold writeArtifact at h
  obtain ⟨x, d₁, hexisting, h⟩ := exists_of_on_bind_ok h
  obtain ⟨rfl, hfault, hread⟩ := existing_ok hexisting
  refine ⟨hfault, ?_⟩
  cases x with
  | none =>
    obtain ⟨_, d₂, hpersist, h⟩ := exists_of_on_bind_ok h
    cases h
    exact Or.inr (persist_ok hpersist)
  | some b =>
    by_cases hsum : Checksum.ofBytes b = a.checksum
    · simp only [hsum, if_true] at h
      cases h
      exact Or.inl ⟨⟨b, hread b rfl, hsum⟩, rfl⟩
    · simp only [hsum, if_false] at h
      obtain ⟨_, d₂, hpersist, h⟩ := exists_of_on_bind_ok h
      cases h
      exact Or.inr (persist_ok hpersist)

/-- An artifact that cannot be written leaves all files as they were. -/
theorem writeArtifact_error {e : Failure} (h : (writeArtifact root a).on d = (.error e, d')) :
    Littered d d' := by
  have hsame : Littered d d := .of_grows (Grows.refl d) fun _ => rfl
  have hpersist : ∀ (status : Status) (d₁ : Disk), (do
      persist (a.destination root) a.contents
      return (⟨a.destination root, status, a.checksum⟩ : Outcome) : Action Outcome).on d₁ =
        (.error e, d') → Littered d₁ d' := by
    intro status d₁ h
    rcases on_bind_error h with h | ⟨_, _, -, h⟩
    · exact persist_error h
    · cases h
  unfold writeArtifact at h
  rcases on_bind_error h with hexisting | ⟨x, d₁, hexisting, h⟩
  · rw [on_existing] at hexisting
    split at hexisting <;> cases hexisting
    exact hsame
  · obtain ⟨rfl, -, -⟩ := existing_ok hexisting
    cases x with
    | none => exact hpersist _ _ h
    | some b =>
      by_cases hsum : Checksum.ofBytes b = a.checksum
      · simp only [hsum, if_true] at h
        cases h
      · simp only [hsum, if_false] at h
        exact hpersist _ _ h

end One

/-! ## Many artifacts -/

/-- What writing artifacts leaves: each can be read from its file, which is new or was there, and
all other files are as they were. -/
structure Written (d d' : Disk) (root : String) (artifacts : List Artifact) : Prop where
  grows : Grows d d'
  shows : ∀ a ∈ artifacts, d'.Shows root a
  contents : ∀ a ∈ artifacts, d'.fileAt (d.destination root a) = some a.contents.toUTF8 ∨
    d'.fileAt (d.destination root a) = d.fileAt (d.destination root a)
  others : ∀ q, (∀ a ∈ artifacts, q ≠ d.destination root a) → d'.fileAt q = d.fileAt q

section Many

variable {d d' : Disk} {root : String} {artifacts : List Artifact}

theorem reads_check (root : String) (artifacts : List Artifact) :
    (settleAll root .check artifacts).Reads :=
  (Reads.forAll fun a _ => reads_checkArtifact root a).bind fun _ => .done _

theorem written_of_writeArtifact {a : Artifact} {o : Outcome}
    (h : (writeArtifact root a).on d = (.ok o, d')) : Written d d' root [a] := by
  obtain ⟨hfault, ⟨hshows, rfl⟩ | hreplaced⟩ := writeArtifact_ok h
  · refine ⟨Grows.refl d', ?_, fun _ _ => Or.inr rfl, fun _ _ => rfl⟩
    rintro b hb
    cases List.mem_singleton.mp hb
    exact hshows
  · have hfile : d'.fileAt (d.destination root a) = some a.contents.toUTF8 := by
      rw [hreplaced.files]
      exact if_pos rfl
    refine ⟨hreplaced.grows, ?_, ?_, fun q hq => ?_⟩
    · rintro b hb
      cases List.mem_singleton.mp hb
      refine ⟨a.contents.toUTF8, answer_read_ok_iff.mpr ⟨?_, hreplaced.read⟩, rfl⟩
      rw [hreplaced.grows.faults]
      exact hfault
    · rintro b hb
      cases List.mem_singleton.mp hb
      exact Or.inl hfile
    · rw [hreplaced.files]
      exact if_neg (hq a List.mem_cons_self)

/-- **A complete run leaves every artifact written**, if no two have the same file. -/
theorem written_of_forAll {os : List Outcome}
    (hdistinct : (artifacts.map (d.destination root)).Nodup)
    (h : (forAll (writeArtifact root) artifacts).on d = (.ok os, d')) :
    Written d d' root artifacts := by
  induction artifacts generalizing d os with
  | nil =>
    cases h
    exact ⟨Grows.refl _, nofun, nofun, fun _ _ => rfl⟩
  | cons a as ih =>
    obtain ⟨hnot, hrest⟩ := List.nodup_cons.mp hdistinct
    rw [forAll_cons] at h
    obtain ⟨o, d₁, ha, h⟩ := exists_of_on_bind_ok h
    obtain ⟨bs, d₂, has, h⟩ := exists_of_on_bind_ok h
    cases h
    have hfirst := written_of_writeArtifact ha
    have hplaces : d₁.destination root = d.destination root :=
      funext fun b => hfirst.grows.destination_eq root b
    have htail := ih (by rwa [hplaces]) has
    -- the files behind are other ones, so the first artifact stays as it was written
    have happart : ∀ b ∈ as, d.destination root a ≠ d.destination root b :=
      fun b hb heq => hnot (heq ▸ List.mem_map_of_mem hb)
    have hfile : d'.fileAt (d.destination root a) = d₁.fileAt (d.destination root a) :=
      htail.others _ (by rwa [hplaces])
    refine ⟨hfirst.grows.trans htail.grows, ?_, ?_, fun q hq => ?_⟩
    · intro b hb
      rcases List.mem_cons.mp hb with rfl | hb
      · exact (hfirst.shows b List.mem_cons_self).grows htail.grows (by rw [hplaces, hfile])
      · exact htail.shows b hb
    · intro b hb
      rcases List.mem_cons.mp hb with rfl | hb
      · rw [hfile]
        exact hfirst.contents b List.mem_cons_self
      · have hother := hfirst.others (d.destination root b) fun c hc => by
          cases List.mem_singleton.mp hc
          exact (happart b hb).symm
        have hcontents := htail.contents b hb
        rwa [hplaces, hother] at hcontents
    · rw [htail.others q fun b hb => by
          rw [hplaces]
          exact hq b (List.mem_cons_of_mem a hb)]
      exact hfirst.others q fun b hb => by
        cases List.mem_singleton.mp hb
        exact hq a List.mem_cons_self

end Many
end ApiSurface
