import ApiSurface.Proofs.Disk.Place

/-!
# What a call changes

* `Disk.fileAt`: the bytes of the file at a place;
* `Grows`: the same disk, with other files and perhaps more directories;
* `Holds`: a new file is there, with its bytes;
* `makeDirectories_grows`, `createIn_ok`, `filled_holds`, **`move_ok`**, `discard_holds`: what each
  step of a replacement does to the files.
-/

namespace ApiSurface.Disk

open ApiSurface.Path (Component)
open ApiSurface.Node

/-- The bytes of the file at a place, if there is one. -/
def fileAt (d : Disk) (q : List String) : Option ByteArray :=
  match d.root.kind? q with
  | some (.file b) => some b
  | _ => none

/-- The same disk, with other files and perhaps more directories. -/
structure Grows (d d' : Disk) : Prop where
  here : d'.here = d.here
  faults : d'.faults = d.faults
  newName : d'.newName = d.newName
  directories : ∀ q, d.root.kind? q = some .directory → d'.root.kind? q = some .directory

namespace Grows

variable {d d' d'' : Disk}

theorem refl (d : Disk) : Grows d d := ⟨rfl, rfl, rfl, fun _ h => h⟩

theorem trans (h : Grows d d') (h' : Grows d' d'') : Grows d d'' :=
  ⟨h'.here.trans h.here, h'.faults.trans h.faults, h'.newName.trans h.newName,
    fun q hq => h'.directories q (h.directories q hq)⟩

theorem target_eq (h : Grows d d') (path : String) : d'.target path = d.target path := by
  rw [target, target, h.here]

theorem place_ok (h : Grows d d') {path : String} {p : List String} (hp : d.place path = .ok p) :
    d'.place path = .ok p := by
  unfold place at hp ⊢
  split at hp
  · next hpath =>
    rw [if_pos hpath, h.here]
    exact follow_mono h.directories hp
  · cases hp

end Grows

/-! ## Directories -/

/-- Nothing is different but for directories where nothing was. -/
def Spreads (n n' : Node) : Prop :=
  ∀ q, n'.kind? q = n.kind? q ∨ n.kind? q = none ∧ n'.kind? q = some .directory

theorem Spreads.trans {n n' n'' : Node} (h : Spreads n n') (h' : Spreads n' n'') :
    Spreads n n'' := by
  intro q
  rcases h q with hq | ⟨hnone, hdir⟩
  · rw [← hq]
    exact h' q
  · rcases h' q with hq' | ⟨hnone', -⟩
    · exact Or.inr ⟨hnone, hq'.trans hdir⟩
    · rw [hdir] at hnone'
      cases hnone'

theorem spreads_put_empty {n : Node} {p : List String} {k : String}
    (h : n.kind? (p ++ [k]) = none) : Spreads n (Node.put .empty (p ++ [k]) n) := by
  intro q
  by_cases hdir : n.kind? p = some .directory
  · have hold : n.kind? (p ++ [k]) ≠ some .directory := by
      rw [h]
      exact Option.some_ne_none _ |>.symm
    rw [kind?_put (fun _ _ => rfl) hdir hold]
    by_cases hq : q = p ++ [k]
    · rw [if_pos hq, hq]
      exact Or.inr ⟨h, rfl⟩
    · rw [if_neg hq]
      exact Or.inl rfl
  · exact Or.inl (kind?_put_nowhere .empty hdir q)

theorem withDirectories_name (f : Faults) (k : String) (cs : List Component) (p : List String)
    (n : Node) : withDirectories f (.name k :: cs) p n =
      match n.kind? (p ++ [k]) with
      | some .directory => withDirectories f cs (p ++ [k]) n
      | some (.file _) => (.error .notDirectory, n)
      | none =>
        match f.making (p ++ [k]) with
        | some text => (.error (.other text), n)
        | none =>
          if isName k then withDirectories f cs (p ++ [k]) (Node.put .empty (p ++ [k]) n)
          else (.error .invalidName, n) := by
  rw [withDirectories, kind?]
  cases n.get? (p ++ [k]) with
  | none => rfl
  | some m => cases m <;> rfl

/-- A directory on the way is there already, or is not made, or is made. -/
theorem withDirectories_cases (f : Faults) (k : String) (cs : List Component) (p : List String)
    (n : Node) :
    n.kind? (p ++ [k]) = some .directory ∧
        withDirectories f (.name k :: cs) p n = withDirectories f cs (p ++ [k]) n ∨
      (∃ r, withDirectories f (.name k :: cs) p n = (.error r, n)) ∨
      n.kind? (p ++ [k]) = none ∧ f.making (p ++ [k]) = none ∧
        withDirectories f (.name k :: cs) p n =
          withDirectories f cs (p ++ [k]) (Node.put .empty (p ++ [k]) n) := by
  rw [withDirectories_name]
  cases n.kind? (p ++ [k]) with
  | some x =>
    cases x with
    | file b => exact Or.inr (Or.inl ⟨_, rfl⟩)
    | directory => exact Or.inl ⟨rfl, rfl⟩
  | none =>
    cases f.making (p ++ [k]) with
    | some text => exact Or.inr (Or.inl ⟨_, rfl⟩)
    | none =>
      cases isName k with
      | false => exact Or.inr (Or.inl ⟨_, rfl⟩)
      | true => exact Or.inr (Or.inr ⟨rfl, rfl, rfl⟩)

theorem spreads_withDirectories (faults : Faults) (cs : List Component) (p : List String)
    (n : Node) : Spreads n (withDirectories faults cs p n).2 := by
  induction cs generalizing p n with
  | nil => exact fun q => Or.inl rfl
  | cons c cs ih =>
    cases c with
    | root => exact ih [] n
    | here => exact ih p n
    | up => exact ih p.dropLast n
    | name k =>
      rcases withDirectories_cases faults k cs p n with ⟨-, heq⟩ | ⟨r, heq⟩ | ⟨hnone, -, heq⟩
      · rw [heq]
        exact ih _ n
      · rw [heq]
        exact fun q => Or.inl rfl
      · rw [heq]
        exact (spreads_put_empty hnone).trans (ih _ _)

variable {d d' : Disk}

theorem makeDirectories_grows (path : String) : Grows d (d.makeDirectories path).2 := by
  unfold makeDirectories
  split
  · refine ⟨rfl, rfl, rfl, fun q hq => ?_⟩
    rcases spreads_withDirectories d.faults (Path.components path) d.here d.root q with h | ⟨h, -⟩
    · exact h.trans hq
    · rw [hq] at h
      cases h
  · exact Grows.refl d

theorem fileAt_makeDirectories (path : String) (q : List String) :
    (d.makeDirectories path).2.fileAt q = d.fileAt q := by
  have hspread := spreads_withDirectories d.faults (Path.components path) d.here d.root q
  unfold makeDirectories
  split
  · unfold fileAt
    rcases hspread with h | ⟨hnone, hdir⟩
    · simp only [h]
    · simp only [hnone, hdir]
  · rfl

/-! ## New files -/

/-- The place that a new file means. -/
def spot (d : Disk) (file : Temporary) : List String := d.target file.directory ++ [file.name]

/-- A new file is there, with its bytes. -/
structure Holds (d : Disk) (file : Temporary) (b : ByteArray) : Prop where
  place : d.placeOf file = .ok (d.spot file)
  kind : d.root.kind? (d.spot file) = some (.file b)

theorem Grows.spot_eq (h : Grows d d') (file : Temporary) : d'.spot file = d.spot file := by
  rw [spot, spot, h.target_eq]

theorem placeOf_eq {file : Temporary} (h : d.place file.directory = .ok (d.target file.directory)) :
    d.placeOf file = .ok (d.spot file) := by
  rw [placeOf, h]
  rfl

theorem place_of_placeOf {file : Temporary} {p : List String} (h : d.placeOf file = .ok p) :
    d.place file.directory = .ok (d.target file.directory) := by
  unfold placeOf at h
  cases hp : d.place file.directory with
  | error e =>
    rw [hp] at h
    cases h
  | ok p' => rw [← place_eq hp]

theorem Grows.holds (h : Grows d d') {file : Temporary} {b : ByteArray} {q : List String}
    (hq : d.placeOf file = .ok q) (hkind : d'.root.kind? (d.spot file) = some (.file b)) :
    d'.Holds file b := by
  refine ⟨placeOf_eq ?_, by rwa [h.spot_eq]⟩
  rw [h.target_eq]
  exact h.place_ok (place_of_placeOf hq)

theorem look_eq_ok {path : String} {p : List String} {n : Node} (h : d.look path = .ok (p, n)) :
    d.place path = .ok p ∧ d.root.get? p = some n := by
  unfold look at h
  split at h
  · cases h
  · cases hp : d.place path with
    | error e =>
      rw [hp] at h
      cases h
    | ok p' =>
      simp only [hp, bind, Except.bind] at h
      split at h
      · cases h
      · next b hb =>
        split at h
        · cases h
        · cases h
          exact ⟨rfl, hb⟩
      · next m _ hm =>
        cases h
        exact ⟨rfl, hm⟩

/-- A file at a place in a directory where no directory is: nothing else changes. -/
theorem grows_put {d : Disk} {p : List String} {k : String} (b : ByteArray)
    (hdir : d.root.kind? p = some .directory) (hold : d.root.kind? (p ++ [k]) ≠ some .directory) :
    Grows d { d with root := Node.put (.file b) (p ++ [k]) d.root } := by
  refine ⟨rfl, rfl, rfl, fun q hq => ?_⟩
  have hne : q ≠ p ++ [k] := by
    rintro rfl
    exact hold hq
  rw [kind?_put (fun _ _ => rfl) hdir hold, if_neg hne]
  exact hq

/-- A new file is empty, and stands where nothing was. -/
theorem createIn_ok {directory : String} {file : Temporary}
    (h : d.createIn directory = (.ok file, d')) :
    Grows d d' ∧ (∃ names, file.name = d.newName names) ∧ d.root.kind? (d.spot file) = none ∧
      d'.Holds file .empty ∧ ∀ q ≠ d.spot file, d'.root.kind? q = d.root.kind? q := by
  unfold createIn at h
  split at h
  · cases h
  · cases h
  · next p es hlook =>
    obtain ⟨hplace, hget⟩ := look_eq_ok hlook
    cases place_eq hplace
    have hdir : d.root.kind? (d.target directory) = some .directory := by
      rw [kind?, hget]
      rfl
    have hnew : d.root.kind? (d.target directory ++ [d.newName (es.map (·.1))]) = none := by
      rw [kind?_append, hget, Option.bind_some, kind?_directory_cons]
      cases hfound : Dict.get? es (d.newName (es.map (·.1))) with
      | none => rfl
      | some n =>
        have hmem := List.mem_map_of_mem (f := Prod.fst) (Dict.mem_of_get? hfound)
        exact absurd hmem (d.newName_not_mem _)
    have hold : d.root.kind? (d.target directory ++ [d.newName (es.map (·.1))]) ≠
        some .directory := by
      rw [hnew]
      exact (Option.some_ne_none _).symm
    have hgrows := grows_put .empty hdir hold
    cases h
    refine ⟨hgrows, ⟨_, rfl⟩, hnew, hgrows.holds (placeOf_eq hplace) ?_, fun q hq => ?_⟩
    · change (Node.put _ (d.target directory ++ [_]) d.root).kind? (d.target directory ++ [_]) = _
      rw [kind?_put (fun _ _ => rfl) hdir hold, if_pos rfl]
      rfl
    · change (Node.put _ (d.target directory ++ [_]) d.root).kind? q = _
      rw [kind?_put (fun _ _ => rfl) hdir hold]
      exact if_neg hq

/-- A new file that is there takes other bytes. -/
theorem filled_holds {file : Temporary} {b : ByteArray} (h : d.Holds file b) (c : ByteArray) :
    Grows d (d.filled file c) ∧ (d.filled file c).Holds file c ∧
      ∀ q ≠ d.spot file, (d.filled file c).root.kind? q = d.root.kind? q := by
  have hnone : d.root.kind? (d.spot file) ≠ none := by simp [h.kind]
  have hold : d.root.kind? (d.spot file) ≠ some .directory := by simp [h.kind]
  have hdir := directory_of_kind?_below hnone
  have hgrows := grows_put c hdir hold
  have hfilled : d.filled file c =
      { d with root := Node.put (.file c) (d.spot file) d.root } := by
    rw [filled, h.place]
  rw [hfilled]
  refine ⟨hgrows, hgrows.holds h.place ?_, fun q hq => ?_⟩
  · exact (kind?_put (fun _ _ => rfl) hdir hold _).trans (if_pos rfl)
  · exact (kind?_put (fun _ _ => rfl) hdir hold q).trans (if_neg hq)

/-- A new file that is taken away leaves all else as it was. -/
theorem grows_erase {file : Temporary} {b : ByteArray} (h : d.Holds file b) :
    Grows d { d with root := Node.erase (d.spot file) d.root } ∧
      ∀ q, (Node.erase (d.spot file) d.root).kind? q =
        if q = d.spot file then none else d.root.kind? q := by
  have hold : d.root.kind? (d.spot file) ≠ some .directory := by simp [h.kind]
  have herase := kind?_erase hold
  refine ⟨⟨rfl, rfl, rfl, fun q hq => ?_⟩, herase⟩
  have hne : q ≠ d.spot file := by
    rintro rfl
    exact hold hq
  exact (herase q).trans ((if_neg hne).trans hq)

theorem discard_holds {file : Temporary} {b : ByteArray} (h : d.Holds file b) :
    Grows d (d.discard file).2 ∧
      ∀ q ≠ d.spot file, (d.discard file).2.root.kind? q = d.root.kind? q := by
  obtain ⟨hgrows, herase⟩ := grows_erase h
  unfold discard
  rw [h.place]
  simp only
  split
  · exact ⟨hgrows, fun q hq => (herase q).trans (if_neg hq)⟩
  · exact ⟨Grows.refl d, fun q _ => rfl⟩
  · exact ⟨Grows.refl d, fun q _ => rfl⟩

/-- A file in a directory in place of a new file. -/
theorem grows_put_erase {file : Temporary} {b : ByteArray} {p : List String} {k : String}
    (h : d.Holds file b) (hdir : d.root.kind? p = some .directory)
    (hold : d.root.kind? (p ++ [k]) ≠ some .directory) :
    Grows d { d with root := Node.put (.file b) (p ++ [k]) (Node.erase (d.spot file) d.root) } ∧
      ∀ q, (Node.put (.file b) (p ++ [k]) (Node.erase (d.spot file) d.root)).kind? q =
        if q = p ++ [k] then some (.file b)
        else if q = d.spot file then none else d.root.kind? q := by
  obtain ⟨hgrows, herase⟩ := grows_erase h
  have hdir' := hgrows.directories p hdir
  have hold' : (Node.erase (d.spot file) d.root).kind? (p ++ [k]) ≠ some .directory := by
    rw [herase]
    split
    · exact (Option.some_ne_none _).symm
    · exact hold
  refine ⟨hgrows.trans (grows_put b hdir' hold'), fun q => ?_⟩
  rw [kind?_put (fun _ _ => rfl) hdir' hold', herase]
  rfl

/-- **A new file that is moved stands at the place of the path, and nowhere else.** -/
theorem move_ok {file : Temporary} {b : ByteArray} {path : String} (hfile : d.Holds file b)
    (h : d.move file path = (.ok (), d')) :
    Grows d d' ∧ path.isEmpty = false ∧ endsInDirectory path = false ∧
      d'.place path = .ok (d.target path) ∧
      ∀ q, d'.root.kind? q = if q = d.target path then some (.file b)
        else if q = d.spot file then none else d.root.kind? q := by
  unfold move at h
  rw [hfile.place] at h
  split at h
  · cases h
  · next hempty =>
    cases hplace : d.place path with
    | error e =>
      rw [hplace] at h
      cases h
    | ok p =>
      rw [hplace] at h
      cases place_eq hplace
      simp only [get?_of_kind?_file hfile.kind] at h
      split at h
      · cases h
      · next c es hc hdir hold =>
        cases hc
        split at h
        · cases h
        · next hends =>
          have hkind : d.root.kind? (d.target path).dropLast = some .directory := by
            rw [kind?, hdir]
            rfl
          have hnot : d.root.kind? (d.target path) ≠ some .directory := by
            intro hk
            obtain ⟨ds, hds⟩ := get?_of_kind?_directory hk
            exact hold ds hds
          -- at the top of the tree there is a directory, which does not give way
          have hne : d.target path ≠ [] := by
            intro hnil
            rw [hnil] at hkind hnot
            exact hnot hkind
          have hlast := List.dropLast_concat_getLast hne
          rw [← hlast] at hnot
          obtain ⟨hgrows, hput⟩ := grows_put_erase hfile hkind hnot
          rw [hlast] at hgrows hput
          cases h
          exact ⟨hgrows, by simpa using hempty, by simpa using hends, hgrows.place_ok hplace, hput⟩
      · cases h
      · cases h

theorem move_error {file : Temporary} {path : String} {e : Refusal}
    (h : d.move file path = (.error e, d')) : d' = d := by
  unfold move at h
  split at h
  · cases h
    rfl
  · split at h
    · cases h
      rfl
    · cases h
      rfl
    · split at h
      · cases h
        rfl
      · split at h
        · cases h
          rfl
        · cases h
      · cases h
        rfl
      · cases h
        rfl

end ApiSurface.Disk
