import ApiSurface.Proofs.Disk.Running
import ApiSurface.Task

/-!
# Generation only reads

* `reads_matchingFiles`, `reads_readUnits`: finding and reading source units;
* **`reads_generate`**: a task changes nothing before it settles its artifacts.
-/

namespace ApiSurface

open ApiSurface.Action (Reads)

/-! ## Exceptions -/

theorem reads_exceptionsIn (dir file : String) : (exceptionsIn dir file).Reads := by
  refine .call rfl fun r => ?_
  cases r <;> exact .done _

theorem reads_commonFilesFrom (dir : String) : (commonFilesFrom dir).Reads := by
  refine .call rfl fun r => ?_
  split <;> exact .done _

theorem reads_commonFiles (top : String) : (commonFiles top).Reads := by
  refine .call rfl fun r => ?_
  split
  · exact .done _
  · split
    · exact reads_commonFilesFrom _
    · exact .done _

theorem reads_repositoryExceptions (top : String) : (repositoryExceptions top).Reads := by
  refine (reads_commonFiles top).bind fun c => ?_
  cases c with
  | «at» dir => exact reads_exceptionsIn top _
  | nowhere | unreadable => exact .done _

theorem reads_namedIn (home : Option String) (file : String) : (namedIn home file).Reads := by
  refine .call rfl fun r => ?_
  cases r <;> exact .done _

theorem reads_personalExceptions (s : Surroundings) : (personalExceptions s).Reads := by
  have hfile : (personalFile? s).Reads :=
    (Reads.forAll fun file _ => reads_namedIn s.home? file).bind fun _ => .done _
  refine hfile.bind fun file => ?_
  cases file with
  | none => exact .done _
  | some file => exact reads_exceptionsIn s.here file

theorem reads_levelAt (dir : String) (entries : List Listed) : (levelAt dir entries).Reads := by
  refine (reads_exceptionsIn dir _).bind fun own => ?_
  split
  · exact (reads_repositoryExceptions dir).bind fun _ => .done _
  · exact .done _

theorem reads_exceptionsAbove (place : List String) : (exceptionsAbove place).Reads := by
  refine (reads_exceptionsIn _ _).bind fun own => ?_
  refine (reads_repositoryExceptions _).bind fun repository => ?_
  split
  · exact .done _
  · exact .fail _

/-! ## Files -/

theorem reads_files (w : Walk) (fuel : Nat) (levels : List Level) (below : List String)
    (entries : List Listed) : (w.files fuel levels below entries).Reads := by
  induction fuel generalizing levels below entries with
  | zero => exact .done _
  | succ fuel ih =>
    refine (reads_levelAt _ entries).bind fun inner => ?_
    refine Reads.bind (Reads.forAll fun e _ => ?_) fun found => .done _
    split
    · exact (Reads.demand rfl _).bind fun inside => ih _ _ inside
    · exact .done _

theorem reads_walkFrom (s : Surroundings) (hidden : Bool) (selection : Glob.Selection)
    (root : String) : (walkFrom s hidden selection root).Reads := by
  refine (Reads.demand rfl _).bind fun top => (Reads.ask rfl).bind fun listed => ?_
  split
  · refine (Reads.forAll fun place _ => reads_exceptionsAbove place).bind fun outer => ?_
    refine (reads_personalExceptions s).bind fun personal => ?_
    exact (reads_files _ _ _ _ _).bind fun _ => .done _
  · exact .done _
  · exact .fail _

theorem reads_matchingFiles (s : Surroundings) (hidden : Bool) (root : String)
    (patterns : List String) : (matchingFiles s hidden root patterns).Reads := by
  unfold matchingFiles
  split
  · exact .done _
  · split
    · exact .fail _
    · split
      · exact .done _
      · exact reads_walkFrom s hidden _ root

theorem reads_readUnits (s : Surroundings) (hidden : Bool) (root : String)
    (patterns : List String) : (readUnits s hidden root patterns).Reads := by
  refine (reads_matchingFiles s hidden root patterns).bind fun places => ?_
  refine Reads.forAll fun place _ => (Reads.demand rfl _).bind fun bytes => ?_
  exact (Reads.ofExcept _).bind fun _ => .done _

/-- **A task changes nothing before it settles its artifacts.** -/
theorem reads_generate (t : TaskSettings) (s : Surroundings) (hidden : Bool) (root : String) :
    (t.generate s hidden root).Reads := by
  refine (reads_readUnits s hidden root t.types).bind fun types => ?_
  refine (reads_readUnits s hidden root t.controllers).bind fun controllers => ?_
  exact (Reads.ofExcept _).bind fun _ => .done _

end ApiSurface
