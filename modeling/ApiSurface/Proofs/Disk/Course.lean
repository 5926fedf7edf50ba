import ApiSurface.Proofs.Artifact.Persist
import ApiSurface.Proofs.Path

/-!
# The course of a path

What is found at the end of a path depends on a few places only: on the one it leads to, and on
those that it goes up out of, or where it has a name that no file can have.

* `Disk.start`, `components_steps`: a path as a place to start from and steps;
* `Disk.lookup`, `read_eq_lookup`: what is found at the end of steps, and what reading gives;
* `Disk.Cleared`: there are directories all along a path;
* `Disk.Hinges`: the places that a path hinges on;
* **`Hinges.covers`**: every place on the way is above one of them, or a directory;
* `hinges_of_names`: a path of names hinges on nothing but the place that it leads to.
-/

namespace ApiSurface

open ApiSurface.Path (Component steps IsStep)
open ApiSurface.Node

namespace Disk

/-! ## Steps -/

/-- The place that the steps of a path start from. -/
def start (d : Disk) (path : String) : List String :=
  if Path.isAbsolute path then [] else d.here

theorem follow_append (n : Node) (cs cs' : List Component) (p : List String) :
    follow n (cs ++ cs') p = (follow n cs p).bind (follow n cs') := by
  induction cs generalizing p with
  | nil => rfl
  | cons c cs ih =>
    cases c with
    | root => exact ih []
    | here => exact ih p
    | up =>
      rw [List.cons_append, follow, follow]
      split
      · exact ih p.dropLast
      · rfl
      · rfl
    | name k =>
      rw [List.cons_append, follow, follow]
      split
      · split
        · exact ih (p ++ [k])
        · rfl
      · rfl
      · rfl

theorem walk_append (cs cs' : List Component) (p : List String) :
    walk (cs ++ cs') p = walk cs' (walk cs p) := by
  induction cs generalizing p with
  | nil => rfl
  | cons c cs ih => cases c <;> exact ih _

variable {d : Disk} {path : String}

/-- What goes through the components of a path goes through its steps, from where they start. -/
theorem components_steps {α : Type} (go : List Component → List String → α)
    (hroot : ∀ cs p, go (.root :: cs) p = go cs []) (hhere : ∀ cs p, go (.here :: cs) p = go cs p)
    (d : Disk) (path : String) :
    go (Path.components path) d.here = go (steps path) (d.start path) := by
  rw [Path.components_eq, start]
  unfold Path.front
  split
  · exact hroot _ _
  · split
    · exact hhere _ _
    · rfl

theorem place_eq_follow : d.place path =
    if isPath path then follow d.root (steps path) (d.start path) else .error .invalidName := by
  rw [place, components_steps (follow d.root) (fun _ _ => rfl) (fun _ _ => rfl)]

theorem target_eq_walk : d.target path = walk (steps path) (d.start path) :=
  components_steps walk (fun _ _ => rfl) (fun _ _ => rfl) d path

theorem makeDirectories_eq : d.makeDirectories path =
    if isPath path then
      ((withDirectories d.faults (steps path) (d.start path) d.root).1,
        { d with root := (withDirectories d.faults (steps path) (d.start path) d.root).2 })
    else (.error .invalidName, d) := by
  have hsteps := components_steps (fun cs p => withDirectories d.faults cs p d.root)
    (fun _ _ => rfl) (fun _ _ => rfl) d path
  rw [makeDirectories, hsteps]

theorem start_parent (h : steps path ≠ [] ∨ Path.isAbsolute path = false) :
    d.start (Path.parent path) = d.start path := by
  rw [start, start, Path.isAbsolute_parent h]

theorem directory_above {n : Node} {p q : List String} (h : n.kind? q = some .directory)
    (hp : p <+: q) : n.kind? p = some .directory := by
  obtain ⟨r, rfl⟩ := hp
  cases r with
  | nil => rwa [List.append_nil] at h
  | cons k r =>
    by_contra hne
    rw [kind?_below hne] at h
    cases h

theorem start_directory (h : d.root.kind? d.here = some .directory) (path : String) :
    d.root.kind? (d.start path) = some .directory := by
  unfold start
  split
  · exact directory_above h List.nil_prefix
  · exact h

/-! ## What is found -/

/-- What is found at the end of components from a place on. -/
def lookup (n : Node) (cs : List Component) (p : List String) : Except Refusal Kind :=
  match follow n cs p with
  | .error r => .error r
  | .ok q =>
    match n.kind? q with
    | some x => .ok x
    | none => .error .missing

section Lookup

variable {n : Node} {p : List String} {cs : List Component}

theorem follow_up (n : Node) (cs : List Component) (p : List String) :
    follow n (.up :: cs) p =
      match n.kind? p with
      | some .directory => follow n cs p.dropLast
      | some (.file _) => .error .notDirectory
      | none => .error .missing := by
  rw [follow, kind?]
  cases n.get? p with
  | none => rfl
  | some m => cases m <;> rfl

theorem follow_name (n : Node) (k : String) (cs : List Component) (p : List String) :
    follow n (.name k :: cs) p =
      match n.kind? p with
      | some .directory =>
        if isName k then follow n cs (p ++ [k]) else .error .invalidName
      | some (.file _) => .error .notDirectory
      | none => .error .missing := by
  rw [follow, kind?]
  cases n.get? p with
  | none => rfl
  | some m => cases m <;> rfl

theorem lookup_up (n : Node) (cs : List Component) (p : List String) :
    lookup n (.up :: cs) p =
      match n.kind? p with
      | some .directory => lookup n cs p.dropLast
      | some (.file _) => .error .notDirectory
      | none => .error .missing := by
  unfold lookup
  rw [follow_up]
  cases n.kind? p with
  | none => rfl
  | some x => cases x <;> rfl

theorem lookup_name (n : Node) (k : String) (cs : List Component) (p : List String) :
    lookup n (.name k :: cs) p =
      match n.kind? p with
      | some .directory =>
        if isName k then lookup n cs (p ++ [k]) else .error .invalidName
      | some (.file _) => .error .notDirectory
      | none => .error .missing := by
  unfold lookup
  rw [follow_name]
  cases n.kind? p with
  | none => rfl
  | some x =>
    cases x with
    | file b => rfl
    | directory => cases isName k <;> rfl

/-- Nothing is found behind a missing place. -/
theorem lookup_of_none (hcs : ∀ c ∈ cs, IsStep c) (h : n.kind? p = none) :
    lookup n cs p = .error .missing := by
  cases cs with
  | nil => simp [lookup, follow, h]
  | cons c cs =>
    cases hcs c List.mem_cons_self with
    | up => rw [lookup_up, h]
    | name _ _ => rw [lookup_name, h]

/-- What reading a file gives. -/
theorem read_eq_lookup : d.read path =
    if path.isEmpty then .error .missing
    else if isPath path then
      match lookup d.root (steps path) (d.start path) with
      | .error r => .error r
      | .ok (.file b) => if endsInDirectory path then .error .notDirectory else .ok b
      | .ok .directory => .error .isDirectory
    else .error .invalidName := by
  rw [Disk.read_eq, place_eq_follow, lookup]
  split
  · rfl
  · cases isPath path with
    | false => rfl
    | true =>
      rw [if_pos rfl, if_pos rfl]
      cases follow d.root (steps path) (d.start path) with
      | error r => rfl
      | ok q =>
        simp only [kind?]
        cases d.root.get? q with
        | none => rfl
        | some m => cases m <;> rfl

/-- Whether a component is no name, or one that a file can have. -/
def isPlain : Component → Bool
  | .name k => isName k
  | _ => true

/-- Only an impossible name keeps steps from being followed through directories. -/
theorem follow_of_directories (hcs : ∀ c ∈ cs, IsStep c)
    (h : ∀ xs, xs <+: cs → n.kind? (walk xs p) = some .directory) :
    follow n cs p = if cs.all isPlain then .ok (walk cs p) else .error .invalidName := by
  induction cs generalizing p with
  | nil => rfl
  | cons c cs ih =>
    have hp : n.kind? p = some .directory := h [] List.nil_prefix
    have hrest := fun b hb => hcs b (List.mem_cons_of_mem c hb)
    cases hcs c List.mem_cons_self with
    | up =>
      rw [follow_up, hp]
      exact ih hrest fun xs hxs => h (.up :: xs) (List.cons_prefix_cons.mpr ⟨rfl, hxs⟩)
    | @name k _ _ =>
      rw [follow_name, hp]
      have hnext := ih hrest fun xs hxs => h (.name k :: xs) (List.cons_prefix_cons.mpr ⟨rfl, hxs⟩)
      rw [hnext, List.all_cons, isPlain]
      cases isName k <;> rfl

end Lookup

/-- There are directories all along a path, up to the one that its end lies in. -/
def Cleared (d : Disk) (path : String) : Prop :=
  ∀ xs, xs <+: (steps path).dropLast → d.root.kind? (walk xs (d.start path)) = some .directory

namespace Cleared

theorem follow_eq (h : d.Cleared path) : follow d.root (steps path).dropLast (d.start path) =
    if (steps path).dropLast.all isPlain then .ok (walk (steps path).dropLast (d.start path))
    else .error .invalidName :=
  follow_of_directories
    (fun _ hc => Path.isStep_of_mem_steps (List.dropLast_subset _ hc)) h

theorem place_parent_eq (h : d.Cleared path)
    (hfront : steps path ≠ [] ∨ Path.isAbsolute path = false) :
    d.place (Path.parent path) =
      if isPath (Path.parent path) && (steps path).dropLast.all isPlain then
        .ok (walk (steps path).dropLast (d.start path))
      else .error .invalidName := by
  rw [place_eq_follow, Path.steps_parent hfront, start_parent hfront, h.follow_eq]
  cases isPath (Path.parent path) <;> rfl

/-- Only an impossible name keeps the end of a path from being a place. -/
theorem follow_steps (h : d.Cleared path) : follow d.root (steps path) (d.start path) =
    if (steps path).all isPlain then .ok (d.target path) else .error .invalidName := by
  have hfollow := h.follow_eq
  have hlast := h _ (List.prefix_refl _)
  have hsteps : ∀ c ∈ steps path, IsStep c := fun c hc => Path.isStep_of_mem_steps hc
  rw [target_eq_walk]
  rcases List.eq_nil_or_concat (steps path) with hnil | ⟨ss, c, hconcat⟩
  · rw [hnil]
    rfl
  · rw [List.concat_eq_append] at hconcat
    rw [hconcat, List.dropLast_concat] at hfollow hlast
    have hc : IsStep c := hsteps c (by simp [hconcat])
    rw [hconcat, follow_append, hfollow, List.all_append, walk_append]
    cases ss.all isPlain with
    | false => rfl
    | true =>
      change follow d.root [c] (walk ss (d.start path)) = _
      cases hc with
      | up =>
        rw [follow_up, hlast]
        rfl
      | @name k _ _ =>
        rw [follow_name, hlast]
        simp [isPlain, follow, walk]

theorem place_eq (h : d.Cleared path) : d.place path =
    if isPath path && (steps path).all isPlain then .ok (d.target path)
    else .error .invalidName := by
  rw [place_eq_follow, h.follow_steps]
  cases isPath path <;> rfl

theorem directory (h : d.Cleared path) :
    d.root.kind? (d.target path).dropLast = some .directory := by
  have hlast := h _ (List.prefix_refl _)
  have hsteps : ∀ c ∈ steps path, IsStep c := fun c hc => Path.isStep_of_mem_steps hc
  rw [target_eq_walk]
  rcases List.eq_nil_or_concat (steps path) with hnil | ⟨ss, c, hconcat⟩
  · rw [hnil] at hlast ⊢
    exact directory_above hlast (List.dropLast_prefix _)
  · rw [List.concat_eq_append] at hconcat
    rw [hconcat, List.dropLast_concat] at hlast
    have hc : IsStep c := hsteps c (by simp [hconcat])
    rw [hconcat, walk_append]
    cases hc with
    | up =>
      exact directory_above hlast ((List.dropLast_prefix _).trans (List.dropLast_prefix _))
    | name _ _ =>
      rw [walk, walk, List.dropLast_concat]
      exact hlast

end Cleared

/-! ## What a path hinges on -/

/-- The places that components hinge on, from a place on: the one they lead to; one that they go up
out of or look for an impossible name in, unless there is a directory; and one of an impossible
name. -/
def Hinges (n : Node) : List Component → List String → List String → Prop
  | [], p, q => q = p
  | .root :: cs, _, q => Hinges n cs [] q
  | .here :: cs, p, q => Hinges n cs p q
  | .up :: cs, p, q => n.kind? p ≠ some .directory ∧ q = p ∨ Hinges n cs p.dropLast q
  | .name k :: cs, p, q =>
    isName k = false ∧ (n.kind? p ≠ some .directory ∧ q = p ∨ q = p ++ [k]) ∨
      Hinges n cs (p ++ [k]) q

/-- The places that a path hinges on. -/
def HingesOn (d : Disk) (path : String) (q : List String) : Prop :=
  Hinges d.root (Path.components path) d.here q

theorem hingesOn_iff {q : List String} :
    d.HingesOn path q ↔ Hinges d.root (steps path) (d.start path) q := by
  rw [HingesOn, components_steps (Hinges d.root) (fun _ _ => rfl) (fun _ _ => rfl)]

section Hinges

variable {n : Node} {p q : List String} {cs : List Component}

theorem hinges_walk (n : Node) (cs : List Component) (p : List String) :
    Hinges n cs p (walk cs p) := by
  induction cs generalizing p with
  | nil => rfl
  | cons c cs ih =>
    cases c with
    | root => exact ih []
    | here => exact ih p
    | up => exact Or.inr (ih p.dropLast)
    | name k => exact Or.inr (ih (p ++ [k]))

theorem hingesOn_target (d : Disk) (path : String) : d.HingesOn path (d.target path) :=
  hinges_walk d.root (Path.components path) d.here

/-- **Every place on the way is above one of those that matter**, or a directory. -/
theorem Hinges.covers (n : Node) (p : List String) (hcs : ∀ c ∈ cs, IsStep c) :
    n.kind? p = some .directory ∨ ∃ q, Hinges n cs p q ∧ p <+: q := by
  induction cs generalizing p with
  | nil => exact Or.inr ⟨p, rfl, List.prefix_refl p⟩
  | cons c cs ih =>
    cases hcs c List.mem_cons_self with
    | up =>
      by_cases hp : n.kind? p = some .directory
      · exact Or.inl hp
      · exact Or.inr ⟨p, Or.inl ⟨hp, rfl⟩, List.prefix_refl p⟩
    | @name k _ _ =>
      rcases ih (p ++ [k]) fun b hb => hcs b (List.mem_cons_of_mem _ hb) with hdir | ⟨q, hq, hpq⟩
      · exact Or.inl (directory_above hdir (List.prefix_append p [k]))
      · exact Or.inr ⟨q, Or.inr hq, (List.prefix_append p [k]).trans hpq⟩

/-- Names that files can have are no reason to look at any place but the last. -/
theorem hinges_of_names (hcs : ∀ c ∈ cs, c ≠ .up) (hplain : cs.all isPlain = true) :
    Hinges n cs p q ↔ q = walk cs p := by
  induction cs generalizing p with
  | nil => rfl
  | cons c cs ih =>
    rw [List.all_cons, Bool.and_eq_true] at hplain
    have hrest := fun b hb => hcs b (List.mem_cons_of_mem c hb)
    cases c with
    | root => exact ih hrest hplain.2
    | here => exact ih hrest hplain.2
    | up => exact absurd rfl (hcs .up List.mem_cons_self)
    | name k =>
      have hk : isName k = true := hplain.1
      rw [Hinges, hk, walk]
      simpa using ih hrest hplain.2

/-- A path of names hinges on nothing but the place that it leads to. -/
theorem hingesOn_of_names (hcs : ∀ c ∈ Path.components path, c ≠ .up)
    (hplain : (Path.components path).all isPlain = true) :
    d.HingesOn path q ↔ q = d.target path := hinges_of_names hcs hplain

end Hinges

/-! ## More directories -/

variable {d' : Disk}

theorem Grows.start_eq (h : Grows d d') (path : String) : d'.start path = d.start path := by
  rw [start, start, h.here]

theorem Grows.start_directory (h : Grows d d') (hhere : d.root.kind? d.here = some .directory)
    (path : String) : d'.root.kind? (d'.start path) = some .directory := by
  rw [h.start_eq]
  exact h.directories _ (Disk.start_directory hhere path)

theorem Cleared.grows (h : d.Cleared path) (hgrows : Grows d d') : d'.Cleared path := by
  intro xs hxs
  rw [hgrows.start_eq]
  exact hgrows.directories _ (h xs hxs)

end Disk

end ApiSurface
