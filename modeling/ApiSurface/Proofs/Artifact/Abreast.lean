import ApiSurface.Proofs.Artifact.Settle
import ApiSurface.Proofs.Disk.Alike

/-!
# Two disks side by side

Two disks grew out of one and are alike at some places. A call that has to do with one of these
places is answered alike by both, although new files may have different names there, and the disks
stay alike.

* `Faults.Steady`: faults depend only on what is asked for;
* `Disk.Abreast`: two disks that are alike at some places;
* `Abreast.read_eq`, `Abreast.makeDirectories`, `Abreast.createIn`: calls on both;
* `Disk.Twins`, `Twins.fill`, **`Twins.move`**, `Twins.discard`: the new files of both.
-/

namespace ApiSurface

/-! ## Faults that depend only on what is asked for -/

/-- The call with another name for the new file that it is about. -/
def Call.renamed (name : String) : Call → Call
  | .fill file contents => .fill ⟨file.directory, name⟩ contents
  | .move file path => .move ⟨file.directory, name⟩ path
  | .discard file => .discard ⟨file.directory, name⟩
  | c => c

/-- Whether something can be changed depends neither on what is on the disk nor on the names that
new files have. -/
def Faults.Steady (f : Faults) : Prop :=
  ∀ n m c name, f.changing m (c.renamed name) = f.changing n c

open ApiSurface.Action ApiSurface.Disk ApiSurface.Node
open ApiSurface.Path (Component steps)

/-! ## Two disks side by side -/

namespace Disk

/-- Two disks that grew out of one, and are alike at some places. -/
structure Abreast (o : Disk) (Q : List String → Prop) (d e : Disk) : Prop where
  left : Grows o d
  right : Grows o e
  alike : ∀ q, Q q → AlikeAt o.faults d.root e.root q

variable {o d e d' e' : Disk} {Q : List String → Prop} {path : String}

theorem Abreast.fault_eq (h : Abreast o Q d e) (hsteady : o.faults.Steady) (c : Call)
    (name : String) : e.fault (c.renamed name) = d.fault c := by
  unfold fault
  rw [h.left.faults, h.right.faults]
  cases c with
  | locate path => rfl
  | list path => rfl
  | read path => rfl
  | makeDirectories path => exact hsteady d.root e.root (.makeDirectories path) name
  | createIn directory => exact hsteady d.root e.root (.createIn directory) name
  | fill file contents => exact hsteady d.root e.root (.fill file contents) name
  | move file path => exact hsteady d.root e.root (.move file path) name
  | discard file => exact hsteady d.root e.root (.discard file) name
  | overwrite path contents => exact hsteady d.root e.root (.overwrite path contents) name

/-- A change of both disks away from all places leaves them side by side. -/
theorem Abreast.apart (h : Abreast o Q d e) (hd : Grows d d') (he : Grows e e')
    {s t : List String} (hs : ∀ q, Q q → ¬ s <+: q) (ht : ∀ q, Q q → ¬ t <+: q)
    (hds : ∀ r ≠ s, d'.root.kind? r = d.root.kind? r)
    (het : ∀ r ≠ t, e'.root.kind? r = e.root.kind? r) : Abreast o Q d' e' := by
  refine ⟨h.left.trans hd, h.right.trans he, fun q hq => (h.alike q hq).congr ?_ ?_⟩
  · intro r hr
    refine hds r ?_
    rintro rfl
    exact hs q hq hr
  · intro r hr
    refine het r ?_
    rintro rfl
    exact ht q hq hr

/-! ## Reading -/

theorem Abreast.read_eq (h : Abreast o Q d e) (hQ : ∀ q, o.HingesOn path q → Q q) :
    (e.answer (.read path)).1 = (d.answer (.read path)).1 := by
  have hlookup : lookup e.root (steps path) (e.start path) =
      lookup d.root (steps path) (d.start path) := by
    rw [h.left.start_eq, h.right.start_eq]
    exact lookup_alike h.left.directories h.right.directories
      (fun c hc => Path.isStep_of_mem_steps hc) fun q hq => h.alike q (hQ q (hingesOn_iff.mpr hq))
  rw [answer_read_fst, answer_read_fst, h.left.faults, h.right.faults, read_eq_lookup,
    read_eq_lookup, hlookup]

/-! ## Making directories -/

/-- The directories above the end of a path are made alike on both disks. -/
theorem Abreast.makeDirectories (h : Abreast o Q d e) (hsteady : o.faults.Steady)
    (hhere : o.root.kind? o.here = some .directory)
    (hfront : steps path ≠ [] ∨ Path.isAbsolute path = false)
    (hQ : ∀ q, o.HingesOn path q → Q q) :
    ∃ r d' e', d.answer (.makeDirectories (Path.parent path)) = (r, d') ∧
      e.answer (.makeDirectories (Path.parent path)) = (r, e') ∧ Abreast o Q d' e' := by
  have hfault : e.fault (.makeDirectories (Path.parent path)) =
      d.fault (.makeDirectories (Path.parent path)) :=
    h.fault_eq hsteady (.makeDirectories (Path.parent path)) ""
  have hstart := start_directory hhere path
  have hgrowsd := (d.answer_makeDirectories (Path.parent path)).1
  have hgrowse := (e.answer_makeDirectories (Path.parent path)).1
  rw [answer_makeDirectories_parent hfront, h.left.faults, h.left.start_eq] at hgrowsd ⊢
  rw [answer_makeDirectories_parent hfront, h.right.faults, h.right.start_eq, hfault] at hgrowse ⊢
  cases hf : d.fault (.makeDirectories (Path.parent path)) with
  | some text => exact ⟨_, d, e, rfl, rfl, h⟩
  | none =>
    rw [hf] at hgrowsd hgrowse
    cases hparent : isPath (Path.parent path) with
    | false => exact ⟨_, d, e, rfl, rfl, h⟩
    | true =>
      rw [hparent] at hgrowsd hgrowse
      obtain ⟨hfst, halike⟩ := withDirectories_alike (List.dropLast_prefix _) h.alike
        h.left.directories h.right.directories (fun c hc => Path.isStep_of_mem_steps hc)
        (h.left.directories _ hstart) (h.right.directories _ hstart)
        fun q hq => hQ q (hingesOn_iff.mpr hq)
      exact ⟨_, _, _, rfl, Prod.ext hfst rfl,
        ⟨h.left.trans hgrowsd, h.right.trans hgrowse, halike⟩⟩

/-! ## New files -/

theorem createIn_of_directory {directory : String} {p : List String}
    (hplace : d.place directory = .ok p) (hdir : d.root.kind? p = some .directory) :
    (directory.isEmpty = true → d.createIn directory = (.error .missing, d)) ∧
      (directory.isEmpty = false →
        ∃ name d', d.createIn directory = (.ok ⟨directory, name⟩, d')) := by
  obtain ⟨es, hes⟩ := get?_of_kind?_directory hdir
  constructor
  · intro hempty
    simp [createIn, look, hempty]
  · intro hempty
    simp [createIn, look, hempty, hplace, Bind.bind, Except.bind, hes]

theorem createIn_of_place_error {directory : String} {r : Refusal}
    (hplace : d.place directory = .error r) :
    d.createIn directory = (.error (if directory.isEmpty then .missing else r), d) := by
  cases hempty : directory.isEmpty <;>
    simp [createIn, look, hempty, hplace, Bind.bind, Except.bind]

/-- A new file is made beside the end of a path on both disks or on neither. -/
theorem Abreast.createIn (h : Abreast o Q d e) (hsteady : o.faults.Steady)
    (hfront : steps path ≠ [] ∨ Path.isAbsolute path = false) (hd : d.Cleared path)
    (he : e.Cleared path) :
    (∃ r, d.answer (.createIn (Path.parent path)) = (.error r, d) ∧
      e.answer (.createIn (Path.parent path)) = (.error r, e)) ∨
    ∃ m d' n e', d.answer (.createIn (Path.parent path)) = (.ok ⟨Path.parent path, m⟩, d') ∧
      e.answer (.createIn (Path.parent path)) = (.ok ⟨Path.parent path, n⟩, e') := by
  have hfault : e.fault (.createIn (Path.parent path)) = d.fault (.createIn (Path.parent path)) :=
    h.fault_eq hsteady (.createIn (Path.parent path)) ""
  have hplaced := hd.place_parent_eq hfront
  have hplacee := he.place_parent_eq hfront
  unfold answer
  rw [hfault]
  cases d.fault (.createIn (Path.parent path)) with
  | some text => exact Or.inl ⟨.other text, rfl, rfl⟩
  | none =>
    cases hplain : isPath (Path.parent path) && (steps path).dropLast.all isPlain with
    | false =>
      rw [hplain] at hplaced hplacee
      exact Or.inl ⟨_, createIn_of_place_error hplaced, createIn_of_place_error hplacee⟩
    | true =>
      rw [hplain] at hplaced hplacee
      obtain ⟨hdempty, hdfull⟩ := createIn_of_directory hplaced (hd _ (List.prefix_refl _))
      obtain ⟨heempty, hefull⟩ := createIn_of_directory hplacee (he _ (List.prefix_refl _))
      cases hempty : (Path.parent path).isEmpty with
      | true => exact Or.inl ⟨.missing, hdempty hempty, heempty hempty⟩
      | false =>
        obtain ⟨m, d', hm⟩ := hdfull hempty
        obtain ⟨n, e', hn⟩ := hefull hempty
        exact Or.inr ⟨m, d', n, e', hm, hn⟩

theorem Grows.createIn_ok {f : Temporary} {directory : String} (h : Grows o d)
    (hd : d.answer (.createIn directory) = (.ok f, d')) :
    Grows d d' ∧ d'.Holds f .empty ∧ o.IsNew (o.spot f) ∧
      ∀ r ≠ o.spot f, d'.root.kind? r = d.root.kind? r := by
  obtain ⟨hgrows, ⟨names, hname⟩, -, hholds, hframe⟩ := Disk.createIn_ok (answer_createIn_ok hd)
  rw [h.spot_eq] at hframe
  exact ⟨hgrows, hholds, ⟨o.target f.directory, names, by rw [spot, hname, h.newName]⟩, hframe⟩

namespace Holds

variable {f : Temporary} {b : ByteArray}

theorem answer_fill_eq (h : d.Holds f b) (contents : String) :
    d.answer (.fill f contents) =
      match d.fault (.fill f contents) with
      | some text => (.error (.other text), d.filled f (d.faults.torn contents))
      | none => (.ok (), d.filled f contents.toUTF8) := by
  unfold answer
  cases d.fault (.fill f contents) with
  | some text => rfl
  | none =>
    change ((d.placeOf f).map _, _) = _
    rw [h.place]
    rfl

/-- What becomes of a new file that is to take a place in a directory. -/
theorem move_fst (h : d.Holds f b) {q : List String} (hplace : d.place path = .ok q)
    (hdir : d.root.kind? q.dropLast = some .directory) : (d.move f path).1 =
      if path.isEmpty then .error .missing
      else match d.root.kind? q with
        | some .directory => .error .isDirectory
        | _ => if endsInDirectory path then .error .notDirectory else .ok () := by
  obtain ⟨es, hes⟩ := get?_of_kind?_directory hdir
  have hfile := get?_of_kind?_file h.kind
  unfold move
  rw [h.place, hplace]
  split
  · rfl
  · simp only [hfile, hes, kind?]
    cases d.root.get? q with
    | none => cases hends : endsInDirectory path <;> simp
    | some m =>
      cases m with
      | file c => cases hends : endsInDirectory path <;> simp [Node.kind]
      | directory ds => simp [Node.kind]

theorem move_of_place_error {r : Refusal} (h : d.Holds f b) (hplace : d.place path = .error r) :
    d.move f path = (.error (if path.isEmpty then .missing else r), d) := by
  unfold Disk.move
  rw [h.place, hplace]
  split <;> rfl

end Holds

/-- New files of both disks, in one directory and away from all places. -/
structure Twins (o : Disk) (Q : List String → Prop) (d e : Disk) (f g : Temporary)
    (b : ByteArray) : Prop where
  abreast : Abreast o Q d e
  directory : f.directory = g.directory
  left : d.Holds f b
  right : e.Holds g b
  apartLeft : ∀ q, Q q → ¬ o.spot f <+: q
  apartRight : ∀ q, Q q → ¬ o.spot g <+: q

namespace Twins

variable {f g : Temporary} {b : ByteArray}

/-- A file that is made in a directory of both disks is a new file of both. -/
theorem of_createIn (h : Abreast o Q d e) (hnew : ∀ q, Q q → ∀ r, r <+: q → ¬ o.IsNew r)
    {directory m n : String} (hd : d.answer (.createIn directory) = (.ok ⟨directory, m⟩, d'))
    (he : e.answer (.createIn directory) = (.ok ⟨directory, n⟩, e')) :
    Twins o Q d' e' ⟨directory, m⟩ ⟨directory, n⟩ .empty := by
  obtain ⟨hgrowsd, hholdsd, hisNewd, hframed⟩ := h.left.createIn_ok hd
  obtain ⟨hgrowse, hholdse, hisNewe, hframee⟩ := h.right.createIn_ok he
  have hapartd : ∀ q, Q q → ¬ o.spot ⟨directory, m⟩ <+: q :=
    fun q hq hprefix => hnew q hq _ hprefix hisNewd
  have haparte : ∀ q, Q q → ¬ o.spot ⟨directory, n⟩ <+: q :=
    fun q hq hprefix => hnew q hq _ hprefix hisNewe
  exact ⟨h.apart hgrowsd hgrowse hapartd haparte hframed hframee, rfl, hholdsd, hholdse,
    hapartd, haparte⟩

theorem fault_eq (h : Twins o Q d e f g b) (hsteady : o.faults.Steady) (c : Call) :
    e.fault (c.renamed g.name) = d.fault c := h.abreast.fault_eq hsteady c g.name

/-- Both new files take the same bytes. -/
theorem fill (h : Twins o Q d e f g b) (hsteady : o.faults.Steady) (contents : String) :
    ∃ r d' e' c, d.answer (.fill f contents) = (r, d') ∧ e.answer (.fill g contents) = (r, e') ∧
      Twins o Q d' e' f g c ∧ Grows d d' ∧ Grows e e' := by
  have hfilled : ∀ c, Twins o Q (d.filled f c) (e.filled g c) f g c ∧
      Grows d (d.filled f c) ∧ Grows e (e.filled g c) := by
    intro c
    obtain ⟨hgrowsd, hholdsd, hframed⟩ := filled_holds h.left c
    obtain ⟨hgrowse, hholdse, hframee⟩ := filled_holds h.right c
    rw [h.abreast.left.spot_eq] at hframed
    rw [h.abreast.right.spot_eq] at hframee
    exact ⟨⟨h.abreast.apart hgrowsd hgrowse h.apartLeft h.apartRight hframed hframee, h.directory,
      hholdsd, hholdse, h.apartLeft, h.apartRight⟩, hgrowsd, hgrowse⟩
  have hfault : e.fault (.fill g contents) = d.fault (.fill f contents) := by
    have heq := h.fault_eq hsteady (.fill f contents)
    rw [Call.renamed, h.directory] at heq
    exact heq
  rw [h.left.answer_fill_eq, h.right.answer_fill_eq, hfault, h.abreast.left.faults,
    h.abreast.right.faults]
  cases d.fault (.fill f contents) with
  | some text => exact ⟨_, _, _, _, rfl, rfl, hfilled (o.faults.torn contents)⟩
  | none => exact ⟨_, _, _, _, rfl, rfl, hfilled contents.toUTF8⟩

/-- Whether the new files go away or not, the disks stay side by side. -/
theorem discard (h : Twins o Q d e f g b) :
    Abreast o Q (d.answer (.discard f)).2 (e.answer (.discard g)).2 := by
  obtain ⟨hgrowsd, hframed⟩ := answer_discard h.left
  obtain ⟨hgrowse, hframee⟩ := answer_discard h.right
  rw [h.abreast.left.spot_eq] at hframed
  rw [h.abreast.right.spot_eq] at hframee
  exact h.abreast.apart hgrowsd hgrowse h.apartLeft h.apartRight hframed hframee

theorem answer_move_fst (h : Twins o Q d e f g b) (hsteady : o.faults.Steady)
    (hQ : Q (o.target path)) (hd : d.Cleared path) (he : e.Cleared path) :
    (e.answer (.move g path)).1 = (d.answer (.move f path)).1 := by
  have hfault : e.fault (.move g path) = d.fault (.move f path) := by
    have heq := h.fault_eq hsteady (.move f path)
    rw [Call.renamed, h.directory] at heq
    exact heq
  unfold answer
  rw [hfault]
  cases d.fault (.move f path) with
  | some text => rfl
  | none =>
    change (e.move g path).1 = (d.move f path).1
    have hplaced := hd.place_eq
    have hplacee := he.place_eq
    cases hplain : isPath path && (steps path).all isPlain with
    | false =>
      rw [hplain] at hplaced hplacee
      rw [h.left.move_of_place_error hplaced, h.right.move_of_place_error hplacee]
    | true =>
      rw [hplain] at hplaced hplacee
      have hsame : e.root.kind? (e.target path) = d.root.kind? (d.target path) := by
        rw [h.abreast.left.target_eq, h.abreast.right.target_eq]
        exact (h.abreast.alike _ hQ).same
      rw [h.left.move_fst hplaced hd.directory, h.right.move_fst hplacee he.directory, hsame]

/-- Both new files take the place of a path, or none does. -/
theorem move (h : Twins o Q d e f g b) (hsteady : o.faults.Steady) (hQ : Q (o.target path))
    (hd : d.Cleared path) (he : e.Cleared path) :
    (∃ r, d.answer (.move f path) = (.error r, d) ∧ e.answer (.move g path) = (.error r, e)) ∨
    ∃ d' e', d.answer (.move f path) = (.ok (), d') ∧ e.answer (.move g path) = (.ok (), e') ∧
      Abreast o Q d' e' := by
  have hfst := h.answer_move_fst hsteady hQ hd he
  rcases hda : d.answer (.move f path) with ⟨r, d'⟩
  rcases hea : e.answer (.move g path) with ⟨r', e'⟩
  rw [hda, hea] at hfst
  cases hfst
  cases r with
  | error r =>
    cases answer_move_error hda
    cases answer_move_error hea
    exact Or.inl ⟨r, rfl, rfl⟩
  | ok u =>
    obtain ⟨hgrowsd, -, -, -, hkindd⟩ := move_ok h.left (answer_move_ok hda)
    obtain ⟨hgrowse, -, -, -, hkinde⟩ := move_ok h.right (answer_move_ok hea)
    rw [h.abreast.left.target_eq, h.abreast.left.spot_eq] at hkindd
    rw [h.abreast.right.target_eq, h.abreast.right.spot_eq] at hkinde
    refine Or.inr ⟨d', e', rfl, rfl, h.abreast.left.trans hgrowsd,
      h.abreast.right.trans hgrowse, fun q hq => ?_⟩
    -- the new files were away from all places, so only the file at the path can be seen
    refine (h.abreast.alike q hq).update (s := o.target path) (x := some (.file b))
      (fun r hr => ?_) fun r hr => ?_
    · rw [hkindd, if_neg (c := r = o.spot f)]
      rintro rfl
      exact h.apartLeft q hq hr
    · rw [hkinde, if_neg (c := r = o.spot g)]
      rintro rfl
      exact h.apartRight q hq hr

end Twins

end Disk

end ApiSurface
