import ApiSurface.Proofs.Artifact.Settle

/-!
# Comparing agrees with writing

* `shows_of_check`: a comparison without drift has seen every artifact in its file;
* `settleAll_of_shows`: what is in its file is neither written nor found to differ;
* `generate_congr`: the same source units give the same artifacts;
* **`check_agrees_with_write`**: comparing and writing settle artifacts alike.
-/

namespace ApiSurface

open ApiSurface.Action ApiSurface.Disk

section Agreement

variable {d d' : Disk} {root : String} {artifacts : List Artifact}

/-- A comparison without drift has seen every artifact in its file. -/
theorem shows_of_check {settled : Settled}
    (h : (settleAll root .check artifacts).on d = (.ok settled, d'))
    (hdrift : ∀ o ∈ settled.outcomes, o.isDrift = false) :
    ∀ a ∈ artifacts, d.Shows root a := by
  obtain ⟨os, d₁, hforAll, h⟩ := exists_of_on_bind_ok h
  cases h
  intro a ha
  obtain ⟨o, ho, hcheck⟩ := Reads.forAll_ok (fun a _ => reads_checkArtifact root a) hforAll a ha
  exact shows_of_checkArtifact hcheck (hdrift o ho)

/-- What is in its file is neither written nor found to differ. -/
theorem settleAll_of_shows {mode : Mode} (hmode : mode ≠ .stdout)
    (h : ∀ a ∈ artifacts, d.Shows root a) : (settleAll root mode artifacts).on d =
      (.ok ⟨artifacts.map (Artifact.unchanged root), ""⟩, d) := by
  cases mode with
  | write =>
    have hall := forAll_of_forall fun a ha => writeArtifact_of_shows (h a ha)
    exact (on_bind_ok hall _).trans rfl
  | check =>
    have hall := forAll_of_forall fun a ha => checkArtifact_of_shows (h a ha)
    exact (on_bind_ok hall _).trans rfl
  | stdout => exact absurd rfl hmode

theorem not_isDrift_unchanged {o : Outcome} (h : o ∈ artifacts.map (Artifact.unchanged root)) :
    o.isDrift = false := by
  obtain ⟨a, -, rfl⟩ := List.mem_map.mp h
  rfl

end Agreement

section Task

variable {t : TaskSettings} {s : Surroundings} {hidden : Bool} {root : String} {d d' : Disk}

/-- The same source units give the same artifacts. -/
theorem generate_congr
    (htypes : ((readUnits s hidden root t.types).on d').1 =
      ((readUnits s hidden root t.types).on d).1)
    (hcontrollers : ((readUnits s hidden root t.controllers).on d').1 =
      ((readUnits s hidden root t.controllers).on d).1) :
    ((t.generate s hidden root).on d').1 = ((t.generate s hidden root).on d).1 := by
  have hread := fun patterns => reads_readUnits s hidden root patterns
  unfold TaskSettings.generate
  rw [on_bind, on_bind, (hread t.types).on_eq d', (hread t.types).on_eq d, htypes]
  cases ((readUnits s hidden root t.types).on d).1 with
  | error e => rfl
  | ok types =>
    simp only
    rw [on_bind, on_bind, (hread t.controllers).on_eq d', (hread t.controllers).on_eq d,
      hcontrollers]
    cases ((readUnits s hidden root t.controllers).on d).1 with
    | error e => rfl
    | ok controllers =>
      simp only
      rw [on_bind, on_bind, on_ofExcept, on_ofExcept]
      cases (generate t.framework t.emitter types controllers).result <;> rfl

theorem run_ok_iff {mode : Mode} {r : TaskReport} :
    (t.run s hidden root mode).on d = (.ok r, d') ↔ ∃ g settled,
      (t.generate s hidden root).on d = (.ok g, d) ∧
      (settleAll root (t.effectiveMode mode) g.artifacts).on d = (.ok settled, d') ∧
      r = t.report g settled := by
  constructor
  · intro h
    obtain ⟨g, d₁, hgenerate, h⟩ := exists_of_on_bind_ok h
    obtain ⟨settled, d₂, hsettle, hdone⟩ := exists_of_on_bind_ok h
    have hsame : d₁ = d := by
      rw [← (reads_generate t s hidden root).on_snd d, hgenerate]
    cases hsame
    cases hdone
    exact ⟨g, settled, hgenerate, hsettle, rfl⟩
  · rintro ⟨g, settled, hgenerate, hsettle, rfl⟩
    unfold TaskSettings.run
    rw [on_bind_ok hgenerate, on_bind_ok hsettle]
    rfl

/-- **Comparing agrees with writing.** A comparison changes nothing. Where it finds no drift,
writing reports the same and changes nothing. Where artifacts with files of their own were written,
and the source units are what they were, a comparison finds no drift and writing again changes
nothing. -/
theorem check_agrees_with_write (t : TaskSettings) (s : Surroundings) (hidden : Bool)
    (root : String) (d : Disk) (hstreams : t.emitter.streams = false) :
    ((t.run s hidden root .check).on d).2 = d ∧
    (∀ r d', (t.run s hidden root .check).on d = (.ok r, d') → r.hasDrift = false →
      ∃ g, (t.generate s hidden root).on d = (.ok g, d) ∧
        r.outcomes = g.artifacts.map (Artifact.unchanged root) ∧
        (t.run s hidden root .write).on d = (.ok r, d)) ∧
    ∀ g r d', (t.generate s hidden root).on d = (.ok g, d) →
      (g.artifacts.map (d.destination root)).Nodup →
      (t.run s hidden root .write).on d = (.ok r, d') →
      ((readUnits s hidden root t.types).on d').1 = ((readUnits s hidden root t.types).on d).1 →
      ((readUnits s hidden root t.controllers).on d').1 =
        ((readUnits s hidden root t.controllers).on d).1 →
      ∃ r', r'.hasDrift = false ∧ r'.outcomes = g.artifacts.map (Artifact.unchanged root) ∧
        (t.run s hidden root .check).on d' = (.ok r', d') ∧
        (t.run s hidden root .write).on d' = (.ok r', d') := by
  have hwrite : t.effectiveMode .write = .write := by simp [TaskSettings.effectiveMode, hstreams]
  have hcheck : t.effectiveMode .check = .check := by simp [TaskSettings.effectiveMode]
  have hshown : ∀ {e : Disk} {g : Generated}, (t.generate s hidden root).on e = (.ok g, e) →
      (∀ a ∈ g.artifacts, e.Shows root a) → ∀ mode, t.effectiveMode mode ≠ .stdout →
        (t.run s hidden root mode).on e =
          (.ok (t.report g ⟨g.artifacts.map (Artifact.unchanged root), ""⟩), e) :=
    fun hgenerate hshows mode hmode =>
      run_ok_iff.mpr ⟨_, _, hgenerate, settleAll_of_shows hmode hshows, rfl⟩
  refine ⟨?_, ?_, ?_⟩
  · refine Reads.on_snd ?_ d
    refine (reads_generate t s hidden root).bind fun g => ?_
    rw [hcheck]
    exact (reads_check root g.artifacts).bind fun _ => .done _
  · intro r d' h hdrift
    obtain ⟨g, settled, hgenerate, hsettle, rfl⟩ := run_ok_iff.mp h
    rw [hcheck] at hsettle
    have hshows := shows_of_check hsettle fun o ho => by
      simpa using List.any_eq_false.mp hdrift o ho
    have hsame := hshown hgenerate hshows .check (by simp [hcheck])
    rw [h] at hsame
    -- both modes end in the one report that `settleAll_of_shows` gives
    obtain ⟨hreport, -⟩ := Prod.mk.inj hsame
    rw [Except.ok.inj hreport]
    exact ⟨g, hgenerate, rfl, hshown hgenerate hshows .write (by simp [hwrite])⟩
  · intro g r d' hgenerate hdistinct h htypes hcontrollers
    obtain ⟨g', settled, hgenerate', hsettle, rfl⟩ := run_ok_iff.mp h
    rw [hgenerate] at hgenerate'
    cases hgenerate'
    rw [hwrite] at hsettle
    obtain ⟨os, d₁, hforAll, hdone⟩ := exists_of_on_bind_ok hsettle
    cases hdone
    have hwritten := written_of_forAll hdistinct hforAll
    have hagain : (t.generate s hidden root).on d' = (.ok g, d') := by
      rw [(reads_generate t s hidden root).on_eq d', generate_congr htypes hcontrollers, hgenerate]
    refine ⟨_, ?_, rfl, hshown hagain hwritten.shows .check (by simp [hcheck]),
      hshown hagain hwritten.shows .write (by simp [hwrite])⟩
    exact List.any_eq_false.mpr fun o ho => by simp [not_isDrift_unchanged ho]

/-- A task that documents an empty surface. -/
def TaskSettings.emptyDocument : TaskSettings :=
  ⟨"api", .nest, [], [], .document ⟨"api.json", "API", "1", none, false⟩⟩

/-- On an empty disk the task writes a file; comparing then finds no drift, and writing again
changes nothing. -/
theorem check_agrees_with_write_empty :
    ∃ r d' r', (TaskSettings.emptyDocument.run ⟨"/", []⟩ false "" .write).on (ofTree .empty []) =
        (.ok r, d') ∧ r.outcomes.map (·.path) = ["api.json"] ∧ r'.hasDrift = false ∧
      (TaskSettings.emptyDocument.run ⟨"/", []⟩ false "" .check).on d' = (.ok r', d') ∧
      (TaskSettings.emptyDocument.run ⟨"/", []⟩ false "" .write).on d' = (.ok r', d') := by
  have agrees := check_agrees_with_write .emptyDocument ⟨"/", []⟩ false ""
  obtain ⟨r', hdrift, -, hcheck, -⟩ :=
    (agrees (ofTree .empty []) rfl).2.2 _ _ _ rfl (List.pairwise_singleton _ _) rfl rfl rfl
  obtain ⟨-, -, -, hagain⟩ := (agrees _ rfl).2.1 r' _ hcheck hdrift
  exact ⟨_, _, r', rfl, rfl, hdrift, hcheck, hagain⟩

end Task
end ApiSurface
