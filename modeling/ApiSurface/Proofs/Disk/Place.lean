import ApiSurface.Disk.Tree
import ApiSurface.Proofs.Dict
import Mathlib.Data.List.Infix

/-!
# What stands at a place

A change at one place of a tree is seen through what stands at every place: a file with its bytes,
a directory, or nothing.

* `Node.kind?`: what stands at a place;
* `Node.alter`: other entries in one directory, of which `put` and `erase` are cases;
* **`kind?_put`**, **`kind?_erase`**: a file or an empty directory at a place, and one taken away;
* `walk`, `follow_eq`: a path that can be followed leads where its components say;
* `follow_mono`: and it leads there as long as no directory goes away.
-/

namespace ApiSurface

open ApiSurface.Path (Component)

namespace Node

/-- A file with its bytes, or a directory. -/
inductive Kind
  | file (contents : ByteArray)
  | directory

/-- What a node is, without what is in it if it is a directory. -/
def kind : Node → Kind
  | file b => .file b
  | directory _ => .directory

/-- What stands at a place. -/
def kind? (n : Node) (place : List String) : Option Kind := (n.get? place).map kind

@[simp] theorem kind?_nil (n : Node) : n.kind? [] = some n.kind := by
  cases n <;> rfl

theorem kind?_directory_cons (es : List (String × Node)) (k : String) (q : List String) :
    (directory es).kind? (k :: q) = (Dict.get? es k).bind fun n => n.kind? q := by
  rw [kind?, get?]
  cases Dict.get? es k <;> rfl

theorem get?_append (n : Node) (p q : List String) :
    n.get? (p ++ q) = (n.get? p).bind fun m => m.get? q := by
  induction p generalizing n with
  | nil => cases n <;> rfl
  | cons k p ih =>
    cases n with
    | file b => rfl
    | directory es =>
      rw [List.cons_append, get?, get?]
      cases Dict.get? es k with
      | none => rfl
      | some m => exact ih m

theorem kind?_append (n : Node) (p q : List String) :
    n.kind? (p ++ q) = (n.get? p).bind fun m => m.kind? q := by
  rw [kind?, get?_append]
  cases n.get? p <;> rfl

theorem get?_of_kind?_directory {n : Node} {p : List String} (h : n.kind? p = some .directory) :
    ∃ es, n.get? p = some (directory es) := by
  obtain ⟨m, hm, hkind⟩ := Option.map_eq_some_iff.mp h
  cases m with
  | file b => cases hkind
  | directory es => exact ⟨es, hm⟩

theorem get?_of_kind?_file {n : Node} {p : List String} {b : ByteArray}
    (h : n.kind? p = some (.file b)) : n.get? p = some (file b) := by
  obtain ⟨m, hm, hkind⟩ := Option.map_eq_some_iff.mp h
  cases m <;> cases hkind
  exact hm

/-- Nothing stands below a place unless there is a directory at it. -/
theorem kind?_below {n : Node} {p : List String} (h : n.kind? p ≠ some .directory) (k : String)
    (q : List String) : n.kind? (p ++ k :: q) = none := by
  rw [kind?_append]
  cases hm : n.get? p with
  | none => rfl
  | some m =>
    cases m with
    | file b => rfl
    | directory es => exact absurd (by rw [kind?, hm]; rfl) h

theorem directory_of_kind?_below {n : Node} {p : List String} {k : String}
    (h : n.kind? (p ++ [k]) ≠ none) : n.kind? p = some .directory := by
  by_contra hne
  exact h (kind?_below hne k [])

/-! ## A change in a directory -/

/-- Other entries in the directory at a place, if there is one. -/
def alter (f : List (String × Node) → List (String × Node)) : List String → Node → Node
  | [], directory es => directory (f es)
  | k :: p, directory es =>
    match Dict.get? es k with
    | some n => directory (Dict.insert k (alter f p n) es)
    | none => directory es
  | _, file b => file b

/-- What changes the entries at the end of a place, and goes down to it entry by entry, alters the
directory that the place is in. -/
theorem eq_alter {g : List String → Node → Node} {f : List (String × Node) → List (String × Node)}
    {k : String} (hfile : ∀ p b, g (p ++ [k]) (file b) = file b)
    (hlast : ∀ es, g [k] (directory es) = directory (f es))
    (hmore : ∀ l p es, g (l :: (p ++ [k])) (directory es) =
      match Dict.get? es l with
      | some n => directory (Dict.insert l (g (p ++ [k]) n) es)
      | none => directory es) (p : List String) (n : Node) :
    g (p ++ [k]) n = alter f p n := by
  induction p generalizing n with
  | nil =>
    cases n with
    | file b => exact hfile [] b
    | directory es => exact hlast es
  | cons l p ih =>
    cases n with
    | file b => exact hfile (l :: p) b
    | directory es =>
      rw [List.cons_append, hmore, alter]
      cases Dict.get? es l with
      | none => rfl
      | some m =>
        simp only
        rw [ih m]

theorem put_eq_alter (new : Node) (p : List String) (k : String) (n : Node) :
    put new (p ++ [k]) n = alter (Dict.insert k new) p n := by
  refine eq_alter (fun p b => ?_) (fun es => rfl) (fun l p es => ?_) p n
  · cases p with
    | nil => rfl
    | cons l p => cases p <;> rfl
  · cases p <;> rfl

theorem erase_eq_alter (p : List String) (k : String) (n : Node) :
    erase (p ++ [k]) n = alter (fun es => es.filter fun e => e.1 ≠ k) p n := by
  refine eq_alter (fun p b => ?_) (fun es => rfl) (fun l p es => ?_) p n
  · cases p with
    | nil => rfl
    | cons l p => cases p <;> rfl
  · cases p <;> rfl

section Alter

variable (f : List (String × Node) → List (String × Node)) {n : Node} {p q : List String}

theorem kind?_alter_below {es : List (String × Node)} (h : n.get? p = some (directory es))
    (q : List String) : (alter f p n).kind? (p ++ q) = (directory (f es)).kind? q := by
  induction p generalizing n with
  | nil =>
    cases n <;> cases h
    rfl
  | cons k p ih =>
    cases n with
    | file b => cases h
    | directory ds =>
      rw [get?] at h
      rw [alter]
      cases hm : Dict.get? ds k with
      | none =>
        rw [hm] at h
        cases h
      | some m =>
        rw [hm] at h
        simp only
        rw [List.cons_append, kind?_directory_cons, Dict.get?_insert, if_pos rfl, Option.bind_some]
        exact ih h

theorem kind?_alter_other (h : ¬ p <+: q) : (alter f p n).kind? q = n.kind? q := by
  induction p generalizing n q with
  | nil => exact absurd List.nil_prefix h
  | cons k p ih =>
    cases n with
    | file b => rfl
    | directory es =>
      rw [alter]
      cases hm : Dict.get? es k with
      | none => rfl
      | some m =>
        simp only
        cases q with
        | nil => rfl
        | cons j q =>
          rw [kind?_directory_cons, kind?_directory_cons, Dict.get?_insert]
          by_cases hj : j = k
          · subst hj
            have hq : ¬ p <+: q := fun hp => h (List.cons_prefix_cons.mpr ⟨rfl, hp⟩)
            rw [if_pos rfl, hm, Option.bind_some, Option.bind_some]
            exact ih hq
          · rw [if_neg hj]

theorem kind?_alter_nowhere (h : n.kind? p ≠ some .directory) (q : List String) :
    (alter f p n).kind? q = n.kind? q := by
  by_cases hpq : p <+: q
  · induction p generalizing n q with
    | nil =>
      cases n with
      | file b => rfl
      | directory es => exact absurd rfl h
    | cons k p ih =>
      cases n with
      | file b => rfl
      | directory es =>
        obtain ⟨r, rfl⟩ := hpq
        rw [alter]
        cases hm : Dict.get? es k with
        | none => rfl
        | some m =>
          rw [kind?_directory_cons, hm, Option.bind_some] at h
          simp only
          rw [List.cons_append, kind?_directory_cons, kind?_directory_cons, Dict.get?_insert,
            if_pos rfl, hm, Option.bind_some, Option.bind_some]
          exact ih h _ (List.prefix_append p r)
  · exact kind?_alter_other f hpq

end Alter

/-! ## A change at a place -/

theorem get?_filter_ne (es : List (String × Node)) (k l : String) :
    Dict.get? (es.filter fun e => e.1 ≠ k) l = if l = k then none else Dict.get? es l := by
  induction es with
  | nil => simp
  | cons e es ih =>
    obtain ⟨m, n⟩ := e
    rw [List.filter_cons]
    by_cases hm : m = k
    · subst hm
      rw [if_neg (by simp), ih, Dict.get?_cons]
      split_ifs <;> rfl
    · rw [if_pos (by simpa using hm), Dict.get?_cons, ih, Dict.get?_cons]
      by_cases hl : l = m
      · subst hl
        rw [if_pos rfl, if_neg hm, if_pos rfl]
      · rw [if_neg hl, if_neg hl]

section Change

variable {n : Node} {p : List String} {k : String}

/-- Another entry under one name, with nothing below it, changes only what stands at the place of
that name, unless a directory stood there. -/
theorem kind?_alter {f : List (String × Node) → List (String × Node)} {x : Option Node}
    (hf : ∀ es l, Dict.get? (f es) l = if l = k then x else Dict.get? es l)
    (hx : ∀ j q, (x.bind fun m => m.kind? (j :: q)) = none)
    (hdir : n.kind? p = some .directory) (hold : n.kind? (p ++ [k]) ≠ some .directory)
    (q : List String) :
    (alter f p n).kind? q = if q = p ++ [k] then x.map kind else n.kind? q := by
  by_cases hpq : p <+: q
  · obtain ⟨r, rfl⟩ := hpq
    obtain ⟨es, hes⟩ := get?_of_kind?_directory hdir
    rw [kind?_alter_below _ hes, kind?_append, hes, Option.bind_some]
    cases r with
    | nil => simp [kind]
    | cons l r =>
      rw [kind?_directory_cons, kind?_directory_cons, hf]
      by_cases hl : l = k
      · subst hl
        rw [if_pos rfl]
        cases r with
        | nil => cases x <;> simp
        | cons j r =>
          -- nothing was below the place of the name, since no directory stood there
          have hbelow := kind?_below hold j r
          rw [List.append_assoc, List.singleton_append, kind?_append, hes, Option.bind_some,
            kind?_directory_cons] at hbelow
          rw [hx, if_neg (by simp), hbelow]
      · rw [if_neg hl, if_neg (by simp [hl])]
  · have hne : q ≠ p ++ [k] := by
      rintro rfl
      exact hpq (List.prefix_append p [k])
    rw [kind?_alter_other _ hpq, if_neg hne]

/-- A node with nothing below it takes the place of anything but a directory. -/
theorem kind?_put {new : Node} (hnew : ∀ j q, new.kind? (j :: q) = none)
    (hdir : n.kind? p = some .directory) (hold : n.kind? (p ++ [k]) ≠ some .directory)
    (q : List String) :
    (put new (p ++ [k]) n).kind? q = if q = p ++ [k] then some new.kind else n.kind? q := by
  rw [put_eq_alter]
  exact kind?_alter (fun es l => Dict.get?_insert k new es l) hnew hdir hold q

/-- A node at a place that is in no directory changes nothing. -/
theorem kind?_put_nowhere (new : Node) (h : n.kind? p ≠ some .directory) (q : List String) :
    (put new (p ++ [k]) n).kind? q = n.kind? q := by
  rw [put_eq_alter, kind?_alter_nowhere _ h]

/-- Anything but a directory can be taken away from its place. -/
theorem kind?_erase (hold : n.kind? (p ++ [k]) ≠ some .directory) (q : List String) :
    (erase (p ++ [k]) n).kind? q = if q = p ++ [k] then none else n.kind? q := by
  rw [erase_eq_alter]
  by_cases hdir : n.kind? p = some .directory
  · exact kind?_alter (fun es l => get?_filter_ne es k l) (fun _ _ => rfl) hdir hold q
  · rw [kind?_alter_nowhere _ hdir]
    by_cases hq : q = p ++ [k]
    · rw [if_pos hq, hq, kind?_below hdir k []]
    · rw [if_neg hq]

end Change

end Node

/-! ## Paths -/

namespace Disk

open Node

/-- Where components lead from a place on, whatever stands there. -/
def walk : List Component → List String → List String
  | [], place => place
  | .root :: cs, _ => walk cs []
  | .here :: cs, place => walk cs place
  | .up :: cs, place => walk cs place.dropLast
  | .name k :: cs, place => walk cs (place ++ [k])

/-- The place that a path means on a disk. -/
def target (d : Disk) (path : String) : List String := walk (Path.components path) d.here

theorem follow_eq {root : Node} {cs : List Component} {p q : List String}
    (h : follow root cs p = .ok q) : q = walk cs p := by
  induction cs generalizing p with
  | nil =>
    cases h
    rfl
  | cons c cs ih =>
    cases c with
    | root | here => exact ih h
    | up =>
      rw [follow] at h
      split at h
      · exact ih h
      · cases h
      · cases h
    | name k =>
      rw [follow] at h
      split at h
      · split at h
        · exact ih h
        · cases h
      · cases h
      · cases h

/-- A path can be followed as long as no directory goes away. -/
theorem follow_mono {root root' : Node}
    (hdirs : ∀ q, root.kind? q = some .directory → root'.kind? q = some .directory)
    {cs : List Component} {p q : List String} (h : follow root cs p = .ok q) :
    follow root' cs p = .ok q := by
  have hget : ∀ {q es}, root.get? q = some (.directory es) →
      ∃ es', root'.get? q = some (.directory es') := by
    intro q es hq
    exact get?_of_kind?_directory (hdirs q (by rw [kind?, hq]; rfl))
  induction cs generalizing p with
  | nil => exact h
  | cons c cs ih =>
    cases c with
    | root | here => exact ih h
    | up =>
      rw [follow] at h
      split at h
      · next es hes =>
        obtain ⟨es', hes'⟩ := hget hes
        rw [follow, hes']
        exact ih h
      · cases h
      · cases h
    | name k =>
      rw [follow] at h
      split at h
      · next es hes =>
        obtain ⟨es', hes'⟩ := hget hes
        rw [follow, hes']
        by_cases hk : isName k
        · rw [if_pos hk] at h
          simp only [hk, if_true]
          exact ih h
        · rw [if_neg hk] at h
          cases h
      · cases h
      · cases h

theorem place_eq {d : Disk} {path : String} {p : List String} (h : d.place path = .ok p) :
    p = d.target path := by
  unfold place at h
  split at h
  · exact follow_eq h
  · cases h

end Disk
end ApiSurface
