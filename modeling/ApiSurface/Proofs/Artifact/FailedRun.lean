import ApiSurface.Proofs.Artifact.Settle

/-!
# Failed runs

A run that fails before its artifacts are settled changes nothing. One that fails on an artifact
leaves whole files: new ones up to that artifact, old ones from there on.

* `Disk.Apart`: artifacts that do not get in each other's way;
* `Disk.Tells`: the checksum of an artifact tells what is in its file;
* **`files_of_failed_run`**: what a failed run leaves.
-/

namespace ApiSurface

open ApiSurface.Action ApiSurface.Disk

/-- Artifacts do not get in each other's way: no two have the same file, and none has a name that
the disk gives to new files. -/
structure Disk.Apart (d : Disk) (root : String) (artifacts : List Artifact) : Prop where
  distinct : (artifacts.map (d.destination root)).Nodup
  notNew : ∀ a ∈ artifacts, ¬ d.IsNew (d.destination root a)

/-- A file of the artifact with its checksum has its contents. -/
def Disk.Tells (d : Disk) (root : String) (a : Artifact) : Prop :=
  ∀ b, d.fileAt (d.destination root a) = some b → Checksum.ofBytes b = a.checksum →
    b = a.contents.toUTF8

section FailedRun

variable {d d' d₁ : Disk} {root : String} {artifacts : List Artifact}

/-- Artifacts that were written have exactly their contents in their files. -/
theorem Written.exact (h : Written d d' root artifacts) {a : Artifact} (ha : a ∈ artifacts)
    (htells : d.Tells root a) : d'.fileAt (d.destination root a) = some a.contents.toUTF8 := by
  rcases h.contents a ha with hnew | hold
  · exact hnew
  · obtain ⟨-, -, -, -, b, hb, hsum⟩ := shows_iff.mp (h.shows a ha)
    rw [h.grows.destination_eq] at hb
    rw [hb, htells b (hold ▸ hb) hsum]

theorem Disk.Littered.file (h : Littered d d') {q : List String} {b : ByteArray}
    (hq : d.fileAt q = some b) : d'.fileAt q = some b := by
  rcases h.files q with hsame | ⟨hnone, -⟩
  · rw [hsame, hq]
  · rw [hnone] at hq
    cases hq

theorem Disk.Littered.fileAt_eq (h : Littered d d') {q : List String} (hq : ¬ d.IsNew q) :
    d'.fileAt q = d.fileAt q := (h.files q).resolve_right fun hnew => hq hnew.2

/-- **A failed run leaves whole files.** If nothing was generated, nothing is changed. If writing
fails on an artifact, those before it have their new contents, it and those behind it have the old
ones, and so has every other file; no directory goes away. -/
theorem files_of_failed_run (t : TaskSettings) (s : Surroundings) (hidden : Bool) (root : String)
    (mode : Mode) (d : Disk) :
    (∀ e d', (t.generate s hidden root).on d = (.error e, d') →
      (t.run s hidden root mode).on d = (.error e, d)) ∧
    ∀ artifacts, d.Apart root artifacts → ∀ e d',
      (settleAll root .write artifacts).on d = (.error e, d') →
        ∃ before a after, artifacts = before ++ a :: after ∧
          (∃ os d₁, (forAll (writeArtifact root) before).on d = (.ok os, d₁) ∧
            (writeArtifact root a).on d₁ = (.error e, d')) ∧
          (∀ b ∈ before, d.Tells root b →
            d'.fileAt (d.destination root b) = some b.contents.toUTF8) ∧
          (∀ b ∈ a :: after,
            d'.fileAt (d.destination root b) = d.fileAt (d.destination root b)) ∧
          (∀ q b, d.fileAt q = some b → (∀ c ∈ artifacts, q ≠ d.destination root c) →
            d'.fileAt q = some b) ∧
          ∀ q, d.root.kind? q = some .directory → d'.root.kind? q = some .directory := by
  constructor
  · intro e d' h
    have hsame : d' = d := by
      rw [← (reads_generate t s hidden root).on_snd d, h]
    subst hsame
    unfold TaskSettings.run
    rw [on_bind, h]
  · intro artifacts hapart e d' h
    have hforAll : (forAll (writeArtifact root) artifacts).on d = (.error e, d') := by
      rcases on_bind_error h with h | ⟨_, _, -, hpure⟩
      · exact h
      · cases hpure
    obtain ⟨before, a, after, os, d₁, rfl, hbefore, ha⟩ := forAll_error hforAll
    have hdistinct := hapart.distinct
    rw [List.map_append, List.nodup_append] at hdistinct
    obtain ⟨hbeforeDistinct, -, happart⟩ := hdistinct
    have hwritten := written_of_forAll hbeforeDistinct hbefore
    have hlittered := writeArtifact_error ha
    refine ⟨before, a, after, rfl, ⟨os, d₁, hbefore, ha⟩, fun b hb htells => ?_,
      fun b hb => ?_, fun q b hq hother => ?_,
      (hwritten.grows.trans hlittered.grows).directories⟩
    · exact hlittered.file (hwritten.exact hb htells)
    · have hmem := List.mem_append_right before hb
      -- only a new name could have come into the way, and none of the files has one
      have hnew : ¬ d₁.IsNew (d.destination root b) := by
        unfold IsNew
        rw [hwritten.grows.newName]
        exact hapart.notNew b hmem
      rw [hlittered.fileAt_eq hnew]
      refine hwritten.others _ fun c hc heq => ?_
      exact happart _ (List.mem_map_of_mem hc) _ (List.mem_map_of_mem hb) heq.symm
    · refine hlittered.file ?_
      rw [hwritten.others q fun c hc => hother c (List.mem_append_left (a :: after) hc)]
      exact hq

/-- A disk with one file that lets no file take the place of another one. -/
def Disk.refusing (path : String) : Disk :=
  { ofTree (.directory [("c", .file "3".toUTF8)]) [] with
    faults := { Faults.none with
      changing := fun _ c =>
        match c with
        | .move _ p => if p = path then some "denied" else none
        | _ => none } }

theorem Disk.not_isNew_refusing {path k : String} (hk : k.length < 4) :
    ¬ (refusing path).IsNew [k] := by
  rintro ⟨p, names, h⟩
  have hlast : k = longName names := by
    simpa using congrArg List.getLast? (show [k] = p ++ [longName names] from h)
  rw [hlast, length_longName] at hk
  omega

/-- The first file is written, the second cannot be put in its place, and the third is kept. -/
theorem files_of_failed_run_refusing : ∃ e d',
    (settleAll "" .write [⟨"a", "1"⟩, ⟨"b", "2"⟩]).on (refusing "b") = (.error e, d') ∧
      d'.fileAt ["a"] = some "1".toUTF8 ∧ d'.fileAt ["b"] = none ∧
        d'.fileAt ["c"] = some "3".toUTF8 := by
  have hapart : (refusing "b").Apart "" [⟨"a", "1"⟩, ⟨"b", "2"⟩] := by
    refine ⟨?_, ?_⟩
    · change [["a"], ["b"]].Nodup
      decide
    · rintro a ha
      rcases List.mem_pair.mp ha with rfl | rfl
      · exact not_isNew_refusing (by decide)
      · exact not_isNew_refusing (by decide)
  let t : TaskSettings := ⟨"api", .nest, [], [], .document ⟨"api.json", "API", "1", none, false⟩⟩
  obtain ⟨before, a, after, hsplit, ⟨os, d₁, hbefore, ha⟩, hnew, hold, hothers, -⟩ :=
    (files_of_failed_run t ⟨"/", []⟩ false "" .write (refusing "b")).2 _ hapart _ _ rfl
  cases before with
  | nil =>
    cases hsplit
    cases hbefore
    cases ha
  | cons b before =>
    obtain ⟨rfl, htail⟩ := List.cons.inj hsplit
    obtain ⟨rfl, rfl, rfl⟩ : before = [] ∧ a = ⟨"b", "2"⟩ ∧ after = [] := by
      rcases List.append_eq_singleton_iff.mp htail.symm with ⟨rfl, h⟩ | ⟨-, h⟩
      · simpa using h
      · cases h
    refine ⟨_, _, rfl, hnew _ List.mem_cons_self nofun, hold _ List.mem_cons_self, ?_⟩
    refine hothers ["c"] _ rfl fun c hc => ?_
    rcases List.mem_pair.mp hc with rfl | rfl
    · change ["c"] ≠ ["a"]
      decide
    · change ["c"] ≠ ["b"]
      decide

end FailedRun
end ApiSurface
