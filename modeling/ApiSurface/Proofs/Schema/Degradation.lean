import ApiSurface.Proofs.Schema.Plain

/-!
# What is noted about a type

Resolving a type looks at its nodes from left to right and takes a note on each one that a schema
cannot express, whatever becomes of the schema of that node afterwards.

* `TypeExpr.nodes`: the nodes of a type that are looked at, in order;
* `degradation?`: the note on a node, if a schema cannot express it;
* `notes_resolve`: the notes on a type are those on its nodes;
* **`notes_resolve_after`**: the same after notes that were taken before.
-/

namespace ApiSurface

namespace TypeExpr

/-- The references to one argument that a schema looks through. -/
def isTransparent (name : String) : Bool := name = "Promise" || isListName name

mutual

/-- The nodes of a type that are looked at, from left to right, each before those inside it: those
inside arrays, unions, intersections and the arguments of promises and lists, but not those inside
other arguments or inside objects. -/
def nodes : TypeExpr → List TypeExpr
  | array e => array e :: e.nodes
  | union ms => union ms :: nodesOf ms
  | intersection ms => intersection ms :: nodesOf ms
  | reference name [a] => reference name [a] :: if isTransparent name then a.nodes else []
  | t => [t]

/-- The nodes of several types. -/
def nodesOf : List TypeExpr → List TypeExpr
  | [] => []
  | t :: ts => t.nodes ++ nodesOf ts

end

end TypeExpr

section Resolve

variable (catalog : Option Catalog) (subject : String)

/-- The note on a node that a schema cannot express: a type parameter, type arguments of a reference
that a schema does not look through, or a name without arguments, other than `Date`, that the
catalog does not have. -/
def degradation? : TypeExpr → Option Note
  | .typeParameter name => some (.typeParameter subject name)
  | .reference name [] =>
    if name = "Date" || isKnown catalog name then none else some (.unresolved subject name)
  | .reference name arguments =>
    if TypeExpr.isTransparent name && arguments.length = 1 then none
    else some (.genericArguments subject name arguments.length)
  | _ => none

theorem subject_of_degradation? {t : TypeExpr} {n : Note}
    (h : degradation? catalog subject t = some n) : n.subject = subject := by
  unfold degradation? at h
  split at h
  · cases h
    rfl
  · split_ifs at h
    cases h
    rfl
  · split_ifs at h
    cases h
    rfl
  · cases h

/-! ## Notes on types -/

theorem notes_resolveAll {ts : List TypeExpr}
    (h : ∀ t ∈ ts, (resolve catalog subject t).notes =
      t.nodes.filterMap (degradation? catalog subject)) :
    (resolveAll catalog subject ts).notes =
      (TypeExpr.nodesOf ts).filterMap (degradation? catalog subject) := by
  induction ts with
  | nil =>
    rw [resolveAll, TypeExpr.nodesOf]
    rfl
  | cons t ts ih =>
    obtain ⟨ht, hts⟩ := List.forall_mem_cons.mp h
    rw [resolveAll, TypeExpr.nodesOf, List.filterMap_append, ← ht, ← ih hts]
    simp only [Noted.notes_bind, Noted.notes_pure, List.append_nil]

/-- A reference is noted itself, or what is inside its only argument is. -/
theorem notes_resolve_reference (name : String) {arguments : List TypeExpr}
    (ih : ∀ a ∈ arguments, (resolve catalog subject a).notes =
      a.nodes.filterMap (degradation? catalog subject)) :
    (resolve catalog subject (.reference name arguments)).notes =
      (TypeExpr.reference name arguments).nodes.filterMap (degradation? catalog subject) := by
  match arguments with
  | [] =>
    simp only [TypeExpr.nodes, List.filterMap_cons, List.filterMap_nil, degradation?, resolve,
      resolveName]
    by_cases hdate : name = "Date" <;> by_cases hknown : isKnown catalog name = true <;>
      simp [hdate, hknown]
  | [a] =>
    have ha := ih a List.mem_cons_self
    rw [resolve, TypeExpr.nodes, List.filterMap_cons]
    by_cases hpromise : name = "Promise"
    · simp [hpromise, degradation?, TypeExpr.isTransparent, ha]
    · by_cases hlist : isListName name = true
      · simp [hpromise, hlist, degradation?, TypeExpr.isTransparent, ha]
      · simp [hpromise, hlist, degradation?, TypeExpr.isTransparent]
  | a :: b :: rest =>
    simp [resolve, TypeExpr.nodes, degradation?]

/-- **The notes on a type are those on its nodes**, one for each node that a schema cannot express,
from left to right. -/
theorem notes_resolve (t : TypeExpr) : (resolve catalog subject t).notes =
    t.nodes.filterMap (degradation? catalog subject) := by
  induction t with
  | keyword | literal | undefined | null | void | any | unknown =>
    simp only [resolve, TypeExpr.nodes]
    rfl
  | object ms =>
    simp only [resolve, TypeExpr.nodes]
    rfl
  | typeParameter name =>
    simp only [resolve, TypeExpr.nodes]
    rfl
  | array e ih =>
    rw [resolve, TypeExpr.nodes, List.filterMap_cons_none rfl, ← ih]
    simp only [Noted.notes_bind, Noted.notes_pure, List.append_nil]
  | union ms ih =>
    rw [resolve, TypeExpr.nodes, List.filterMap_cons_none rfl, ← notes_resolveAll catalog subject ih]
    simp only [Noted.notes_bind, Noted.notes_pure, List.append_nil]
  | intersection ms ih =>
    rw [resolve, TypeExpr.nodes, List.filterMap_cons_none rfl, ← notes_resolveAll catalog subject ih]
    simp only [Noted.notes_bind, Noted.notes_pure, List.append_nil]
  | reference name arguments ih => exact notes_resolve_reference catalog subject name ih

/-- **Nothing degrades silently or twice**: resolving a type keeps the notes taken before and adds,
from left to right, one for each node of the type that a schema cannot express, all about the given
subject. -/
theorem notes_resolve_after (t : TypeExpr) (before : List Note) :
    ∃ added, (Noted.noteAll before >>= fun _ => resolve catalog subject t).notes =
        before ++ added ∧
      added = t.nodes.filterMap (degradation? catalog subject) ∧ ∀ n ∈ added, n.subject = subject := by
  refine ⟨_, Noted.notes_bind _ _, notes_resolve catalog subject t, fun n hn => ?_⟩
  rw [notes_resolve] at hn
  obtain ⟨u, -, hu⟩ := List.mem_filterMap.mp hn
  exact subject_of_degradation? catalog subject hu

end Resolve

/-- Two members that become one are noted twice; what stands inside a map is not looked at. -/
example :
    let t : TypeExpr := .union [.typeParameter "T", .array (.reference "Gone" []),
      .typeParameter "T", .reference "Map" [.typeParameter "K", .keyword .string]]
    (resolve (some (Catalog.build []).value) "list" t).notes.map (·.code) =
      [.typeParameter, .unresolvedReference, .typeParameter, .genericArguments] := by
  decide

end ApiSurface
