import ApiSurface.Proofs.Artifact.Agreement
import ApiSurface.Proofs.Artifact.Lockstep

/-!
# Tasks of a batch do not get in each other's way

Tasks that write to different places, and whose sources the others leave alone, end in a batch as
each of them does alone, in whatever order they run.

* `TaskSettings.outputs`, `TaskSettings.sources`: what a task generates and what it reads;
* `TaskSettings.run_lockstep`, `TaskSettings.run_confined`: a task beside its run alone, and what it
  leaves alone;
* `TaskSettings.Apart`, `Independent`: tasks that write to different places and read what no other
  one writes;
* `Ran`, `Ran.concat`: what tasks have left, and one more of them;
* **`runBatch_of_independent`**: a batch ends as its tasks do alone.
-/

namespace ApiSurface

open ApiSurface.Action ApiSurface.Disk

variable {s : Surroundings} {hidden : Bool} {root : String} {mode : Mode}

/-! ## One task -/

namespace TaskSettings

/-- The artifacts that a task generates, if it does not fail before. -/
def outputs (t : TaskSettings) (s : Surroundings) (hidden : Bool) (root : String) (d : Disk) :
    List Artifact :=
  match ((t.generate s hidden root).on d).1 with
  | .ok g => g.artifacts
  | .error _ => []

/-- The source units that a task reads, types and controllers. -/
def sources (t : TaskSettings) (s : Surroundings) (hidden : Bool) (root : String) (d : Disk) :
    Except Failure (List SourceUnit) × Except Failure (List SourceUnit) :=
  (((readUnits s hidden root t.types).on d).1, ((readUnits s hidden root t.controllers).on d).1)

/-- The place of a file that a task generates. -/
def WritesTo (t : TaskSettings) (s : Surroundings) (hidden : Bool) (root : String) (d : Disk)
    (q : List String) : Prop :=
  ∃ a ∈ t.outputs s hidden root d, q = d.destination root a

/-- A place that the path of a file that a task generates hinges on. -/
def HingesOn (t : TaskSettings) (s : Surroundings) (hidden : Bool) (root : String) (d : Disk)
    (q : List String) : Prop :=
  ∃ a ∈ t.outputs s hidden root d, d.HingesOn (a.destination root) q

variable {t : TaskSettings} {d e : Disk}

theorem WritesTo.hingesOn {q : List String} (h : t.WritesTo s hidden root d q) :
    t.HingesOn s hidden root d q := by
  obtain ⟨a, ha, rfl⟩ := h
  exact ⟨a, ha, hingesOn_target d _⟩

theorem generate_of_sources (h : t.sources s hidden root e = t.sources s hidden root d) :
    ((t.generate s hidden root).on e).1 = ((t.generate s hidden root).on d).1 := by
  obtain ⟨htypes, hcontrollers⟩ := Prod.mk.inj h
  exact generate_congr htypes hcontrollers

theorem outputs_of_generate {g : Generated} (h : ((t.generate s hidden root).on d).1 = .ok g) :
    t.outputs s hidden root d = g.artifacts := by
  rw [outputs, h]

/-- A task that reads the same ends alike beside its run alone. -/
theorem run_lockstep (h : Abreast d (t.HingesOn s hidden root d) d e)
    (hcalm : Calm d (t.HingesOn s hidden root d))
    (hsources : t.sources s hidden root e = t.sources s hidden root d) (mode : Mode) :
    Lockstep d (t.HingesOn s hidden root d) d e (t.run s hidden root mode)
      (t.run s hidden root mode) := by
  have hreads := reads_generate t s hidden root
  refine (Lockstep.of_reads h hreads (generate_of_sources hsources)).bind fun g d₁ e₁ hg h₁ => ?_
  have houtputs : t.outputs s hidden root d = g.artifacts := outputs_of_generate (by rw [hg])
  have hplaces : ∀ a ∈ g.artifacts, ∀ q, d.HingesOn (a.destination root) q →
      t.HingesOn s hidden root d q := fun a ha q hq => ⟨a, houtputs ▸ ha, hq⟩
  exact (settleAll_lockstep h₁ hcalm _ hplaces).bind fun _ d₂ e₂ _ h₂ => .done h₂ _

/-- A task that reads the same changes nothing away from its files. -/
theorem run_confined (hgrows : Grows d e) (hhere : d.root.kind? d.here = some .directory)
    (hsources : t.sources s hidden root e = t.sources s hidden root d) (mode : Mode) :
    Confined d (t.HingesOn s hidden root d) (t.WritesTo s hidden root d) e
      ((t.run s hidden root mode).on e).2 := by
  have hreads := reads_generate t s hidden root
  refine (Confined.of_reads hreads d _ _ e).bind fun g e₁ hg => ?_
  have houtputs : t.outputs s hidden root d = g.artifacts := by
    refine outputs_of_generate ?_
    rw [← generate_of_sources hsources, hg]
  have hsame : e₁ = e := by rw [← hreads.on_snd e, hg]
  subst hsame
  have hplaces : ∀ a ∈ g.artifacts, ∀ q, d.HingesOn (a.destination root) q →
      t.HingesOn s hidden root d q := fun a ha q hq => ⟨a, houtputs ▸ ha, hq⟩
  have hfiles : ∀ a ∈ g.artifacts, t.WritesTo s hidden root d (d.destination root a) :=
    fun a ha => ⟨a, houtputs ▸ ha, rfl⟩
  have hsettled := settleAll_confined (t.effectiveMode mode) hgrows hhere hplaces hfiles
  exact hsettled.bind fun _ e₂ _ => Confined.refl d _ _ e₂

end TaskSettings

/-! ## Many tasks -/

/-- No place that the files of one task hinge on is one of the other task's, or above one. -/
def TaskSettings.Apart (s : Surroundings) (hidden : Bool) (root : String) (d : Disk)
    (t u : TaskSettings) : Prop :=
  ∀ p q, t.HingesOn s hidden root d p → u.HingesOn s hidden root d q → ¬ p <+: q ∧ ¬ q <+: p

/-- Tasks write to different places, and in every order each of them reads what it would read
alone. Of the disk it is asked that there is a working directory, that its faults depend only on
what is asked for, and that no new file can come to or above the places of the tasks. -/
structure Independent (tasks : List TaskSettings) (s : Surroundings) (hidden : Bool) (root : String)
    (mode : Mode) (d : Disk) : Prop where
  here : d.root.kind? d.here = some .directory
  steady : d.faults.Steady
  notNew : ∀ t ∈ tasks, ∀ q, t.HingesOn s hidden root d q → ∀ r, r <+: q → ¬ d.IsNew r
  apart : tasks.Pairwise (TaskSettings.Apart s hidden root d)
  unread : ∀ order, order.Perm tasks → ∀ before t after, order = before ++ t :: after →
    t.sources s hidden root ((runBatch before s hidden root mode).on d).2 =
      t.sources s hidden root d

/-- What tasks of a batch have left: the results they have alone, and their files as each of them
leaves them alone; they changed nothing away from these. -/
structure Ran (s : Surroundings) (hidden : Bool) (root : String) (mode : Mode) (d : Disk)
    (tasks : List TaskSettings) (e : Disk) : Prop where
  results : (runBatch tasks s hidden root mode).on d =
    (.ok (tasks.map fun t => (t.name, ((t.run s hidden root mode).on d).1)), e)
  confined : d.Confined (fun q => ∃ t ∈ tasks, t.HingesOn s hidden root d q)
    (fun q => ∃ t ∈ tasks, t.WritesTo s hidden root d q) d e
  alone : ∀ t ∈ tasks, ∀ q, t.WritesTo s hidden root d q →
    e.root.kind? q = ((t.run s hidden root mode).on d).2.root.kind? q

section Batch

variable {d e : Disk} {tasks order : List TaskSettings} {t : TaskSettings}

theorem TaskSettings.Apart.symm {u : TaskSettings} (h : TaskSettings.Apart s hidden root d t u) :
    TaskSettings.Apart s hidden root d u t := fun p q hp hq => (h q p hq hp).symm

theorem runBatch_concat {rs : List (String × Except Failure TaskReport)}
    (h : (runBatch tasks s hidden root mode).on d = (.ok rs, e)) (t : TaskSettings) :
    (runBatch (tasks ++ [t]) s hidden root mode).on d =
      (.ok (rs ++ [(t.name, ((t.run s hidden root mode).on e).1)]),
        ((t.run s hidden root mode).on e).2) :=
  forAll_concat h (on_bind_ok (run_attempt _ _ e) _)

theorem Ran.nil (s : Surroundings) (hidden : Bool) (root : String) (mode : Mode) (d : Disk) :
    Ran s hidden root mode d [] d := ⟨rfl, Confined.refl d _ _ d, nofun⟩

/-- One more task, at whose places nothing can be seen of what the others did. -/
theorem Ran.concat (h : Ran s hidden root mode d tasks e)
    (hcalm : ∀ u ∈ tasks ++ [t], Calm d (u.HingesOn s hidden root d))
    (hapart : ∀ u ∈ tasks, TaskSettings.Apart s hidden root d u t)
    (hsources : t.sources s hidden root e = t.sources s hidden root d) :
    Ran s hidden root mode d (tasks ++ [t]) ((t.run s hidden root mode).on e).2 := by
  have hcalmt : Calm d (t.HingesOn s hidden root d) := hcalm t (by simp)
  -- what the others changed cannot be seen from the places of `t`
  have habreast : Abreast d (t.HingesOn s hidden root d) d e := by
    refine ⟨Grows.refl d, h.confined.grows, fun q hq => ?_⟩
    refine h.confined.away q ?_ (hcalmt.notNew q hq)
    rintro p ⟨u, hu, hp⟩
    exact hapart u hu p q hp hq
  have hlockstep := TaskSettings.run_lockstep habreast hcalmt hsources mode
  have hconfined := TaskSettings.run_confined h.confined.grows hcalmt.here hsources mode
  refine ⟨?_, ?_, fun u hu q hq => ?_⟩
  · rw [runBatch_concat h.results t, hlockstep.result, List.map_append]
    rfl
  · have hmem : ∀ u ∈ tasks, u ∈ tasks ++ [t] := fun u hu => List.mem_append_left [t] hu
    refine (h.confined.mono ?_ ?_).trans (hconfined.mono ?_ ?_)
    · exact fun q ⟨u, hu, hq⟩ => ⟨u, hmem u hu, hq⟩
    · exact fun q ⟨u, hu, hq⟩ => ⟨u, hmem u hu, hq⟩
    · exact fun q hq => ⟨t, by simp, hq⟩
    · exact fun q hq => ⟨t, by simp, hq⟩
  · rcases List.mem_append.mp hu with hu' | hu'
    · -- and `t` leaves their files as they are
      rw [← h.alone u hu' q hq]
      exact (hconfined.away q (fun p hp => (hapart u hu' q p hq.hingesOn hp).symm)
        ((hcalm u hu).notNew q hq.hingesOn)).same
    · cases List.mem_singleton.mp hu'
      exact (hlockstep.abreast.alike q hq.hingesOn).same

/-- The first tasks of every order have left what each of them leaves alone. -/
theorem Independent.ran (h : Independent tasks s hidden root mode d) (horder : order.Perm tasks)
    {before : List TaskSettings} (hbefore : before <+: order) :
    ∃ e, Ran s hidden root mode d before e := by
  induction before using List.reverseRecOn with
  | nil => exact ⟨d, Ran.nil s hidden root mode d⟩
  | append_singleton before t ih =>
    obtain ⟨e, hran⟩ := ih ((List.prefix_append before [t]).trans hbefore)
    have hcalm : ∀ u ∈ before ++ [t], Calm d (u.HingesOn s hidden root d) := fun u hu =>
      ⟨h.here, h.steady, h.notNew u (horder.mem_iff.mp (hbefore.subset hu))⟩
    obtain ⟨after, rfl⟩ := hbefore
    rw [List.append_assoc, List.singleton_append] at horder
    have hapart : (before ++ t :: after).Pairwise (TaskSettings.Apart s hidden root d) :=
      h.apart.perm horder.symm fun hsymm => hsymm.symm
    have hsources := h.unread _ horder before t after rfl
    rw [hran.results] at hsources
    have hbeside := fun u hu => (List.pairwise_append.mp hapart).2.2 u hu t List.mem_cons_self
    exact ⟨_, hran.concat hcalm hbeside hsources⟩

/-- **A batch ends as its tasks do alone.** In every order, each task has its name and the result
that it has alone, and its files are as it leaves them alone; all other files are as they were, but
for ones under new names that could not be taken away. -/
theorem runBatch_of_independent (h : Independent tasks s hidden root mode d)
    (horder : order.Perm tasks) : ∃ d',
      (runBatch order s hidden root mode).on d =
        (.ok (order.map fun t => (t.name, ((t.run s hidden root mode).on d).1)), d') ∧
      (∀ t ∈ tasks, ∀ q, t.WritesTo s hidden root d q →
        d'.fileAt q = ((t.run s hidden root mode).on d).2.fileAt q) ∧
      ∀ q, (∀ t ∈ tasks, ¬ t.WritesTo s hidden root d q) →
        d'.fileAt q = d.fileAt q ∨ d.fileAt q = none ∧ d.IsNew q := by
  obtain ⟨d', hran⟩ := h.ran horder (List.prefix_refl order)
  refine ⟨d', hran.results, fun t ht q hq => ?_, fun q hq => ?_⟩
  · exact fileAt_congr (hran.alone t (horder.mem_iff.mpr ht) q hq)
  · refine hran.confined.files q ?_
    rintro ⟨t, ht, hplace⟩
    exact hq t (horder.mem_iff.mp ht) hplace

end Batch

/-! ## Tasks that document nothing -/

/-- A task that documents what it finds under some patterns. -/
def TaskSettings.documentAt (path : String) (patterns : List String) : TaskSettings :=
  ⟨path, .nest, patterns, [], .document ⟨path, "API", "1", none, false⟩⟩

theorem TaskSettings.hingesOn_documentAt {path : String} {n : Node} {q : List String}
    (hcs : ∀ c ∈ Path.components path, c ≠ .up)
    (hplain : (Path.components path).all isPlain = true) (hpath : Path.join "" path = path)
    (h : (TaskSettings.documentAt path []).HingesOn ⟨"/", []⟩ false "" (ofTree n []) q) :
    q = (ofTree n []).target path := by
  obtain ⟨a, ha, hq⟩ := h
  cases List.mem_singleton.mp ha
  change (ofTree n []).HingesOn (Path.join "" path) q at hq
  rw [hpath] at hq
  exact (hingesOn_of_names hcs hplain).mp hq

theorem Disk.not_isNew_ofTree {n : Node} {p q r : List String}
    (h : ∀ k ∈ q, k.toList.head? ≠ some '.') (hr : r <+: q) : ¬ (ofTree n p).IsNew r := by
  rintro ⟨s, names, rfl⟩
  refine h (longName names) (hr.subset (by simp [ofTree])) ?_
  simp [longName]

/-- Two tasks and one that cannot read its pattern, in another order: the files of the two are as
each leaves its file alone. -/
theorem runBatch_of_independent_failing : ∃ x d',
    (runBatch [.documentAt "c" ["["], .documentAt "docs/b" [], .documentAt "a" []] ⟨"/", []⟩ false
      "" .write).on (ofTree .empty []) =
        (.ok [("c", .error x),
          ("docs/b", (((TaskSettings.documentAt "docs/b" []).run ⟨"/", []⟩ false "" .write).on
            (ofTree .empty [])).1),
          ("a", (((TaskSettings.documentAt "a" []).run ⟨"/", []⟩ false "" .write).on
            (ofTree .empty [])).1)], d') ∧
      d'.fileAt ["a"] = (((TaskSettings.documentAt "a" []).run ⟨"/", []⟩ false "" .write).on
        (ofTree .empty [])).2.fileAt ["a"] ∧
      d'.fileAt ["docs", "b"] = (((TaskSettings.documentAt "docs/b" []).run ⟨"/", []⟩ false ""
        .write).on (ofTree .empty [])).2.fileAt ["docs", "b"] := by
  have ha : ∀ q, (TaskSettings.documentAt "a" []).HingesOn ⟨"/", []⟩ false "" (ofTree .empty []) q →
      q = ["a"] := fun q => TaskSettings.hingesOn_documentAt (by decide) (by decide) (by decide)
  have hb : ∀ q, (TaskSettings.documentAt "docs/b" []).HingesOn ⟨"/", []⟩ false ""
      (ofTree .empty []) q → q = ["docs", "b"] :=
    fun q => TaskSettings.hingesOn_documentAt (by decide) (by decide) (by decide)
  have hc : ∀ q, ¬ (TaskSettings.documentAt "c" ["["]).HingesOn ⟨"/", []⟩ false ""
      (ofTree .empty []) q := fun q ⟨_, hmem, _⟩ => List.not_mem_nil hmem
  have hindependent : Independent
      [.documentAt "a" [], .documentAt "docs/b" [], .documentAt "c" ["["]] ⟨"/", []⟩ false "" .write
      (ofTree .empty []) := by
    refine ⟨rfl, fun _ _ c _ => by cases c <;> rfl, fun t ht q hq r hr => ?_, ?_,
      fun order horder before t after h => ?_⟩
    · refine not_isNew_ofTree ?_ hr
      rcases List.mem_cons.mp ht with rfl | ht
      · rw [ha q hq]
        decide
      · rcases List.mem_pair.mp ht with rfl | rfl
        · rw [hb q hq]
          decide
        · exact absurd hq (hc q)
    · refine List.pairwise_cons.mpr ⟨fun u hu p q hp hq => ?_, List.pairwise_pair.mpr ?_⟩
      · rcases List.mem_pair.mp hu with rfl | rfl
        · rw [ha p hp, hb q hq]
          decide
        · exact absurd hq (hc q)
      · exact fun p q _ hq => absurd hq (hc q)
    · have ht : t ∈ [TaskSettings.documentAt "a" [], .documentAt "docs/b" [],
          .documentAt "c" ["["]] := horder.mem_iff.mp (by simp [h])
      rcases List.mem_cons.mp ht with rfl | ht
      · rfl
      · rcases List.mem_pair.mp ht with rfl | rfl <;> rfl
  obtain ⟨d', hresults, hfiles, -⟩ := runBatch_of_independent hindependent (List.reverse_perm _)
  refine ⟨_, d', hresults, ?_, ?_⟩
  · exact hfiles (.documentAt "a" []) (by simp) ["a"] ⟨_, List.mem_cons_self, rfl⟩
  · exact hfiles (.documentAt "docs/b" []) (by simp) ["docs", "b"] ⟨_, List.mem_cons_self, rfl⟩

/-! ## A path that goes up -/

/-- A file that was there is not said to be created. -/
theorem status_ne_created {d d' : Disk} {a : Artifact} {b : ByteArray} {o : Outcome}
    (h : (existing (a.destination root)).on d = (.ok (some b), d))
    (hwrite : (writeArtifact root a).on d = (.ok o, d')) : o.status ≠ .created := by
  unfold writeArtifact at hwrite
  rw [on_bind_ok h] at hwrite
  by_cases hsum : Checksum.ofBytes b = a.checksum
  · simp only [hsum, if_true] at hwrite
    cases hwrite
    exact nofun
  · simp only [hsum, if_false] at hwrite
    obtain ⟨_, _, -, hdone⟩ := exists_of_on_bind_ok hwrite
    cases hdone
    exact nofun

/-- Nor is the one file of a task that writes it, where a file was. -/
theorem TaskSettings.statuses_ne_created {t : TaskSettings} {g : Generated} {a : Artifact}
    {b : ByteArray} {r : TaskReport} {d d' : Disk}
    (hgenerate : (t.generate s hidden root).on d = (.ok g, d)) (hartifacts : g.artifacts = [a])
    (hmode : t.effectiveMode .write = .write)
    (hthere : (existing (a.destination root)).on d = (.ok (some b), d))
    (hrun : (t.run s hidden root .write).on d = (.ok r, d')) :
    r.outcomes.map (·.status) ≠ [.created] := by
  obtain ⟨g', settled, hgenerate', hsettle, rfl⟩ := run_ok_iff.mp hrun
  rw [hgenerate] at hgenerate'
  cases hgenerate'
  rw [hmode, hartifacts] at hsettle
  obtain ⟨os, d₁, hall, hdone⟩ := exists_of_on_bind_ok hsettle
  cases hdone
  rw [forAll_cons] at hall
  obtain ⟨o, d₂, hwrite, hrest⟩ := exists_of_on_bind_ok hall
  cases hrest
  intro hcreated
  exact status_ne_created hthere hwrite (List.cons.inj hcreated).1

/-- A disk with one empty file. -/
def Disk.withFile (name : String) : Disk := ofTree (.directory [(name, .file .empty)]) []

/-- Two tasks write to different places and read nothing, but one of them makes the directory that
the other one's path goes up out of: only then is the file found that was there all along. -/
theorem runBatch_behind_missing :
    (∀ p q, (TaskSettings.documentAt "out/a" []).WritesTo ⟨"/", []⟩ false "" (withFile "b") p →
      (TaskSettings.documentAt "out/../b" []).WritesTo ⟨"/", []⟩ false "" (withFile "b") q →
        ¬ p <+: q ∧ ¬ q <+: p) ∧
    (∀ t ∈ [TaskSettings.documentAt "out/a" [], .documentAt "out/../b" []], ∀ e,
      t.sources ⟨"/", []⟩ false "" e = t.sources ⟨"/", []⟩ false "" (withFile "b")) ∧
    ∀ e, (runBatch [.documentAt "out/a" [], .documentAt "out/../b" []] ⟨"/", []⟩ false "" .write).on
        (withFile "b") ≠
      (.ok ([TaskSettings.documentAt "out/a" [], .documentAt "out/../b" []].map fun t =>
        (t.name, ((t.run ⟨"/", []⟩ false "" .write).on (withFile "b")).1)), e) := by
  refine ⟨?_, ?_, fun e h => ?_⟩
  · rintro p q ⟨a, ha, rfl⟩ ⟨b, hb, rfl⟩
    cases List.mem_singleton.mp ha
    cases List.mem_singleton.mp hb
    change ¬ ["out", "a"] <+: ["b"] ∧ ¬ ["b"] <+: ["out", "a"]
    decide
  · intro t ht e
    rcases List.mem_pair.mp ht with rfl | rfl <;> rfl
  · have hnone : (runBatch [] ⟨"/", []⟩ false "" .write).on (withFile "b") =
        (.ok [], withFile "b") := rfl
    have hboth := runBatch_concat (runBatch_concat hnone (.documentAt "out/a" []))
      (.documentAt "out/../b" [])
    obtain ⟨hresults, -⟩ := Prod.mk.inj (hboth.symm.trans h)
    have hlast := congrArg List.getLast? (Except.ok.inj hresults)
    obtain ⟨-, hresult⟩ := Prod.mk.inj (Option.some.inj hlast)
    obtain ⟨r, d', halone, hcreated⟩ : ∃ r d',
        ((TaskSettings.documentAt "out/../b" []).run ⟨"/", []⟩ false "" .write).on (withFile "b") =
          (.ok r, d') ∧ r.outcomes.map (·.status) = [.created] := ⟨_, _, rfl, rfl⟩
    let e₁ := (((TaskSettings.documentAt "out/a" []).run ⟨"/", []⟩ false "" .write).on
      (withFile "b")).2
    rcases hrun : ((TaskSettings.documentAt "out/../b" []).run ⟨"/", []⟩ false "" .write).on e₁
      with ⟨x, e'⟩
    rw [halone, hrun] at hresult
    cases hresult
    obtain ⟨g, c, hgenerate, hartifacts⟩ : ∃ g c,
        ((TaskSettings.documentAt "out/../b" []).generate ⟨"/", []⟩ false "").on e₁ = (.ok g, e₁) ∧
          g.artifacts = [⟨"out/../b", c⟩] := ⟨_, _, rfl, rfl⟩
    have hpath : Artifact.destination "" ⟨"out/../b", c⟩ = "out/../b" :=
      (by decide : Path.join "" "out/../b" = "out/../b")
    have hthere : (existing "out/../b").on e₁ = (.ok (some .empty), e₁) := rfl
    rw [← hpath] at hthere
    exact TaskSettings.statuses_ne_created hgenerate hartifacts rfl hthere hrun hcreated

end ApiSurface
