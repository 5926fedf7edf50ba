import ApiSurface.Artifact.Outcome
import ApiSurface.Proofs.Disk.Change
import ApiSurface.Proofs.Disk.Running

/-!
# Files are replaced at once

A file is written under a new name and then moved over its target. Whatever step fails, the target
is what it was; all that may be left are directories and the new file.

* `Replaced`: another file stands at a place, and all other files are as they were;
* `Littered`: all files are as they were, but there may be one under a new name;
* `read_eq_ok_iff`: what it takes to read a file;
* **`persist_ok`**, **`persist_error`**: what a complete and what an incomplete replacement leave.
-/

namespace ApiSurface

open ApiSurface.Node

namespace Disk

variable {d d' : Disk}

/-- Another file stands where the path leads, and all other files are as they were. -/
structure Replaced (d d' : Disk) (path : String) (b : ByteArray) : Prop where
  grows : Grows d d'
  nonempty : path.isEmpty = false
  ends : endsInDirectory path = false
  place : d'.place path = .ok (d.target path)
  files : ∀ q, d'.fileAt q = if q = d.target path then some b else d.fileAt q

/-- The place has a new name of the disk. -/
def IsNew (d : Disk) (q : List String) : Prop := ∃ p names, q = p ++ [d.newName names]

/-- All files are as they were, but for one under a new name where none was. -/
structure Littered (d d' : Disk) : Prop where
  grows : Grows d d'
  files : ∀ q, d'.fileAt q = d.fileAt q ∨ d.fileAt q = none ∧ d.IsNew q

/-! ## Reading a file -/

theorem fileAt_eq_some_iff {q : List String} {b : ByteArray} :
    d.fileAt q = some b ↔ d.root.get? q = some (.file b) := by
  unfold fileAt kind?
  cases d.root.get? q with
  | none => simp
  | some n => cases n <;> simp [kind]

theorem read_eq {path : String} : d.read path =
    if path.isEmpty then .error .missing
    else match d.place path with
      | .error e => .error e
      | .ok p =>
        match d.root.get? p with
        | none => .error .missing
        | some (.file b) => if endsInDirectory path then .error .notDirectory else .ok b
        | some (.directory _) => .error .isDirectory := by
  unfold read look
  split
  · rfl
  · cases d.place path with
    | error e => rfl
    | ok p =>
      cases hn : d.root.get? p with
      | none => simp [bind, Except.bind, hn]
      | some n =>
        cases n with
        | file b => by_cases h : endsInDirectory path <;> simp [bind, Except.bind, hn, h]
        | directory es => simp [bind, Except.bind, hn]

theorem read_eq_ok_iff {path : String} {b : ByteArray} : d.read path = .ok b ↔
    path.isEmpty = false ∧ endsInDirectory path = false ∧ d.place path = .ok (d.target path) ∧
      d.fileAt (d.target path) = some b := by
  rw [read_eq, fileAt_eq_some_iff]
  constructor
  · intro h
    split at h
    · cases h
    · next hempty =>
      cases hplace : d.place path with
      | error e =>
        rw [hplace] at h
        cases h
      | ok p =>
        rw [hplace] at h
        cases place_eq hplace
        simp only at h
        split at h
        · cases h
        · next c hc =>
          split at h
          · cases h
          · next hends =>
            cases h
            exact ⟨by simpa using hempty, by simpa using hends, rfl, hc⟩
        · cases h
  · rintro ⟨hempty, hends, hplace, hfile⟩
    simp [hempty, hends, hplace, hfile]

theorem Replaced.read {path : String} {b : ByteArray} (h : Replaced d d' path b) :
    d'.read path = .ok b := by
  rw [read_eq_ok_iff, h.grows.target_eq, h.files, if_pos rfl]
  exact ⟨h.nonempty, h.ends, h.place, rfl⟩

/-! ## Answers -/

theorem answer_of_ok {c : Call} {a : c.Reply} (h : d.answer c = (.ok a, d')) :
    d.fault c = none := by
  unfold answer at h
  split at h
  · cases h
  · assumption

theorem answer_read_fst (path : String) : (d.answer (.read path)).1 =
    match d.faults.reading (.read path) with
    | some text => .error (.other text)
    | none => d.read path := by
  have hfault : d.fault (.read path) = d.faults.reading (.read path) := rfl
  unfold answer
  rw [hfault]
  cases d.faults.reading (.read path) <;> rfl

theorem answer_makeDirectories (path : String) :
    Grows d (d.answer (.makeDirectories path)).2 ∧
      ∀ q, (d.answer (.makeDirectories path)).2.fileAt q = d.fileAt q := by
  unfold answer
  split
  · exact ⟨Grows.refl d, fun q => rfl⟩
  · exact ⟨makeDirectories_grows path, fileAt_makeDirectories path⟩

theorem answer_createIn_ok {directory : String} {file : Temporary}
    (h : d.answer (.createIn directory) = (.ok file, d')) :
    d.createIn directory = (.ok file, d') := by
  have hfault := answer_of_ok h
  rw [answer, hfault] at h
  exact h

theorem answer_createIn_error {directory : String} {r : Refusal}
    (h : d.answer (.createIn directory) = (.error r, d')) : d' = d := by
  unfold answer at h
  split at h
  · cases h
    rfl
  · simp only at h
    unfold createIn at h
    split at h <;> cases h <;> rfl

theorem answer_fill {file : Temporary} {b : ByteArray} (hfile : d.Holds file b)
    (contents : String) : ∃ c, Grows d (d.answer (.fill file contents)).2 ∧
      (d.answer (.fill file contents)).2.Holds file c ∧
      (∀ q ≠ d.spot file, (d.answer (.fill file contents)).2.root.kind? q = d.root.kind? q) ∧
      ((d.answer (.fill file contents)).1 = .ok () → c = contents.toUTF8) := by
  unfold answer
  split
  · obtain ⟨hgrows, hholds, hframe⟩ := filled_holds hfile (d.faults.torn contents)
    exact ⟨_, hgrows, hholds, hframe, fun h => by cases h⟩
  · obtain ⟨hgrows, hholds, hframe⟩ := filled_holds hfile contents.toUTF8
    exact ⟨_, hgrows, hholds, hframe, fun _ => rfl⟩

theorem answer_move_ok {file : Temporary} {path : String}
    (h : d.answer (.move file path) = (.ok (), d')) : d.move file path = (.ok (), d') := by
  have hfault := answer_of_ok h
  rw [answer, hfault] at h
  exact h

theorem answer_move_error {file : Temporary} {path : String} {r : Refusal}
    (h : d.answer (.move file path) = (.error r, d')) : d' = d := by
  unfold answer at h
  split at h
  · cases h
    rfl
  · exact move_error h

theorem answer_discard {file : Temporary} {b : ByteArray} (hfile : d.Holds file b) :
    Grows d (d.answer (.discard file)).2 ∧
      ∀ q ≠ d.spot file, (d.answer (.discard file)).2.root.kind? q = d.root.kind? q := by
  unfold answer
  split
  · exact ⟨Grows.refl d, fun q _ => rfl⟩
  · exact discard_holds hfile

theorem fileAt_congr {q : List String} (h : d'.root.kind? q = d.root.kind? q) :
    d'.fileAt q = d.fileAt q := by
  rw [fileAt, fileAt, h]

/-! ## A new file on the way -/

/-- All files are as they were, but for a new one with these bytes. -/
structure Begun (d d' : Disk) (file : Temporary) (b : ByteArray) : Prop where
  grows : Grows d d'
  holds : d'.Holds file b
  isNew : d.IsNew (d.spot file)
  absent : d.fileAt (d.spot file) = none
  files : ∀ q ≠ d.spot file, d'.fileAt q = d.fileAt q

namespace Begun

variable {d₁ d₂ : Disk} {file : Temporary} {b : ByteArray}

theorem of_createIn {path directory : String} {r : Except Refusal Unit}
    (hmake : d.answer (.makeDirectories path) = (r, d₁))
    (hcreate : d₁.answer (.createIn directory) = (.ok file, d₂)) : Begun d d₂ file .empty := by
  obtain ⟨hgrows₁, hfiles₁⟩ := d.answer_makeDirectories path
  rw [hmake] at hgrows₁ hfiles₁
  obtain ⟨hgrows₂, ⟨names, hname⟩, hnone, hholds, hframe⟩ :=
    createIn_ok (answer_createIn_ok hcreate)
  have hspot : d₁.spot file = d.spot file := hgrows₁.spot_eq file
  rw [hspot] at hnone hframe
  refine ⟨hgrows₁.trans hgrows₂, hholds, ⟨d.target file.directory, names, ?_⟩, ?_, fun q hq => ?_⟩
  · rw [spot, hname, hgrows₁.newName]
  · rw [← hfiles₁, fileAt, hnone]
  · exact (fileAt_congr (hframe q hq)).trans (hfiles₁ q)

theorem fill (h : Begun d d₁ file b) (contents : String) :
    ∃ c, Begun d (d₁.answer (.fill file contents)).2 file c ∧
      ((d₁.answer (.fill file contents)).1 = .ok () → c = contents.toUTF8) := by
  obtain ⟨c, hgrows, hholds, hframe, hok⟩ := answer_fill h.holds contents
  refine ⟨c, ⟨h.grows.trans hgrows, hholds, h.isNew, h.absent, fun q hq => ?_⟩, hok⟩
  rw [← h.files q hq]
  exact fileAt_congr (hframe q (by rwa [h.grows.spot_eq]))

theorem move {path : String} (h : Begun d d₁ file b)
    (hmove : d₁.answer (.move file path) = (.ok (), d₂)) : Replaced d d₂ path b := by
  obtain ⟨hgrows, hempty, hends, hplace, hkind⟩ := move_ok h.holds (answer_move_ok hmove)
  rw [h.grows.target_eq] at hplace hkind
  rw [h.grows.spot_eq] at hkind
  refine ⟨h.grows.trans hgrows, hempty, hends, hplace, fun q => ?_⟩
  by_cases hq : q = d.target path
  · rw [if_pos hq, fileAt, hkind, if_pos hq]
  · rw [if_neg hq]
    by_cases hspot : q = d.spot file
    · rw [hspot] at hq ⊢
      rw [h.absent, fileAt, hkind, if_neg hq, if_pos rfl]
    · rw [← h.files q hspot]
      exact fileAt_congr (by rw [hkind, if_neg hq, if_neg hspot])

theorem discard (h : Begun d d₁ file b) : Littered d (d₁.answer (.discard file)).2 := by
  obtain ⟨hgrows, hframe⟩ := answer_discard h.holds
  refine ⟨h.grows.trans hgrows, fun q => ?_⟩
  by_cases hq : q = d.spot file
  · exact Or.inr ⟨hq ▸ h.absent, hq ▸ h.isNew⟩
  · rw [← h.files q hq]
    exact Or.inl (fileAt_congr (hframe q (by rwa [h.grows.spot_eq])))

end Begun

theorem Littered.of_grows {d₁ : Disk} (hgrows : Grows d d₁) (h : ∀ q, d₁.fileAt q = d.fileAt q) :
    Littered d d₁ := ⟨hgrows, fun q => Or.inl (h q)⟩

end Disk

/-! ## Replacing a file -/

open ApiSurface.Action ApiSurface.Disk

section Persist

variable {d d' : Disk} {path contents : String}

theorem on_install (file : Temporary) : (install file path contents).on d =
    match d.answer (.fill file contents) with
    | (.error r, d₁) => (.error (.disk r.message), (d₁.answer (.discard file)).2)
    | (.ok _, d₁) =>
      match d₁.answer (.move file path) with
      | (.error r, d₂) => (.error (.notReplaced path r.message), (d₂.answer (.discard file)).2)
      | (.ok _, d₂) => (.ok (), d₂) := by
  unfold install
  rw [on_bind, on_ask]
  simp only
  cases d.answer (.fill file contents) with
  | mk filled d₁ =>
    cases filled with
    | error r => rfl
    | ok u =>
      simp only
      rw [on_bind, on_ask]
      simp only
      cases d₁.answer (.move file path) with
      | mk moved d₂ => cases moved <;> rfl

theorem on_persist : (persist path contents).on d =
    match d.answer (.makeDirectories (Path.parent path)) with
    | (.error r, d₁) => (.error (.disk r.message), d₁)
    | (.ok _, d₁) =>
      match d₁.answer (.createIn (Path.parent path)) with
      | (.error r, d₂) => (.error (.disk r.message), d₂)
      | (.ok new, d₂) => (install new path contents).on d₂ := by
  unfold persist
  rw [on_bind, on_demand]
  cases d.answer (.makeDirectories (Path.parent path)) with
  | mk made d₁ =>
    cases made with
    | error r => rfl
    | ok u =>
      simp only [Except.mapError]
      rw [on_bind, on_demand]
      cases d₁.answer (.createIn (Path.parent path)) with
      | mk created d₂ => cases created <;> rfl

theorem install_ok {d₁ : Disk} {file : Temporary} {b : ByteArray} (hbegun : Begun d d₁ file b)
    (h : (install file path contents).on d₁ = (.ok (), d')) :
    Replaced d d' path contents.toUTF8 := by
  obtain ⟨c, hfill, hok⟩ := hbegun.fill contents
  rw [on_install] at h
  split at h
  · cases h
  · next u d₂ hanswer =>
    rw [hanswer] at hfill hok
    split at h
    · cases h
    · next v d₃ hmove =>
      cases h
      cases hok rfl
      exact hfill.move hmove

theorem install_error {d₁ : Disk} {file : Temporary} {b : ByteArray} {e : Failure}
    (hbegun : Begun d d₁ file b) (h : (install file path contents).on d₁ = (.error e, d')) :
    Littered d d' := by
  obtain ⟨c, hfill, -⟩ := hbegun.fill contents
  rw [on_install] at h
  split at h
  · next r d₂ hanswer =>
    rw [hanswer] at hfill
    cases h
    exact hfill.discard
  · next u d₂ hanswer =>
    rw [hanswer] at hfill
    split at h
    · next r d₃ hmove =>
      cases h
      cases answer_move_error hmove
      exact hfill.discard
    · cases h

/-- **A complete replacement changes one file and no other.** -/
theorem persist_ok (h : (persist path contents).on d = (.ok (), d')) :
    Replaced d d' path contents.toUTF8 := by
  obtain ⟨_, d₁, hmake, h⟩ := exists_of_on_bind_ok h
  obtain ⟨file, d₂, hcreate, h⟩ := exists_of_on_bind_ok h
  exact install_ok (Begun.of_createIn (on_demand_ok hmake) (on_demand_ok hcreate)) h

/-- **An incomplete replacement changes no file.** -/
theorem persist_error {e : Failure} (h : (persist path contents).on d = (.error e, d')) :
    Littered d d' := by
  obtain ⟨hgrows, hfiles⟩ := d.answer_makeDirectories (Path.parent path)
  rcases on_bind_error h with hmake | ⟨_, d₁, hmake, h⟩
  · obtain ⟨r, hanswer⟩ := on_demand_error hmake
    rw [hanswer] at hgrows hfiles
    exact .of_grows hgrows hfiles
  · have hanswer := on_demand_ok hmake
    rw [hanswer] at hgrows hfiles
    rcases on_bind_error h with hcreate | ⟨file, d₂, hcreate, h⟩
    · obtain ⟨r, hrefused⟩ := on_demand_error hcreate
      cases answer_createIn_error hrefused
      exact .of_grows hgrows hfiles
    · exact install_error (Begun.of_createIn hanswer (on_demand_ok hcreate)) h

end Persist
end ApiSurface
