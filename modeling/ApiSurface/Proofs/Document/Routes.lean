import ApiSurface.Proofs.Dict
import ApiSurface.Proofs.Document.Notes

/-!
# The routes of a document

Requests are stored one after the other under path and verb. After any number of them, a route holds
the operation of the last request on it, and each request that took a route over left a note.

* `Routed`, `routeOf_putRoute`, `size_putRoute`: routes stored in sorted dictionaries;
* `lastOn`, `takeovers`: the last request on a route, the notes on routes taken over;
* `Table`: what holds after some requests, kept by one more (`Table.addRoute`) and by all
  (`Table.addRoutes`);
* `Kept`, `mem_operations_build`: the requests whose operations a document keeps;
* **`build_routes`**: the routes and the notes of a document.
-/

namespace ApiSurface.Document

open Noted ApiSurface.Route

variable {c : Catalog} {paths : Dict (Dict Operation)}

/-! ## Stored routes -/

/-- Paths stand in order, each with its verbs in order and at least one of them. -/
structure Routed (paths : Dict (Dict Operation)) : Prop where
  sorted : Dict.Sorted paths
  verbs : ∀ p ∈ paths, Dict.Sorted p.2
  nonempty : ∀ p ∈ paths, p.2 ≠ []

theorem routed_nil : Routed [] :=
  ⟨Dict.sorted_nil, fun _ h => absurd h List.not_mem_nil, fun _ h => absurd h List.not_mem_nil⟩

/-- The verbs stored under a path. -/
def verbsOf (paths : Dict (Dict Operation)) (path : String) : Dict Operation :=
  (paths.get? path).getD []

@[simp] theorem get?_verbsOf (path verb : String) :
    Dict.get? (verbsOf paths path) verb = routeOf paths path verb := by
  unfold verbsOf routeOf
  cases Dict.get? paths path <;> rfl

theorem Routed.sorted_verbsOf (h : Routed paths) (path : String) :
    Dict.Sorted (verbsOf paths path) := by
  unfold verbsOf
  cases hp : Dict.get? paths path with
  | none => exact Dict.sorted_nil
  | some operations => exact h.verbs _ ((Dict.get?_eq_some_iff h.sorted _ _).mp hp)

theorem Routed.putRoute (h : Routed paths) (path verb : String) (o : Operation) :
    Routed (putRoute path verb o paths) where
  sorted := h.sorted.insert _ _
  verbs p hp := by
    rcases Dict.mem_insert hp with rfl | hp
    · exact (h.sorted_verbsOf path).insert _ _
    · exact h.verbs p hp
  nonempty p hp := by
    rcases Dict.mem_insert hp with rfl | hp
    · intro hnil
      have := Dict.get?_insert verb o (verbsOf paths path) verb
      rw [if_pos rfl] at this
      cases (congrArg (fun d => Dict.get? d verb) hnil).symm.trans this
    · exact h.nonempty p hp

theorem routeOf_putRoute (path verb : String) (o : Operation) (p v : String) :
    routeOf (putRoute path verb o paths) p v =
      if path = p ∧ verb = v then some o else routeOf paths p v := by
  have hput : Dict.get? (putRoute path verb o paths) p =
      if p = path then some (Dict.insert verb o (verbsOf paths path)) else Dict.get? paths p :=
    Dict.get?_insert _ _ _ _
  unfold routeOf at *
  rw [hput]
  by_cases hp : p = path
  · subst hp
    rw [if_pos rfl, Option.bind_some, Dict.get?_insert, get?_verbsOf]
    simp only [true_and, eq_comm]
    rfl
  · rw [if_neg hp, if_neg fun h => hp h.1.symm]

/-- What is found under a path and a verb is what is stored there. -/
theorem Routed.routeOf_eq_some_iff (h : Routed paths) (path verb : String) (o : Operation) :
    routeOf paths path verb = some o ↔
      ∃ operations, (path, operations) ∈ paths ∧ (verb, o) ∈ operations := by
  unfold routeOf
  rw [Option.bind_eq_some_iff]
  refine exists_congr fun operations => ?_
  rw [Dict.get?_eq_some_iff h.sorted]
  exact and_congr_right fun hp => Dict.get?_eq_some_iff (h.verbs _ hp) verb o

theorem Routed.isSome_routeOf (h : Routed paths) (path verb : String) :
    (routeOf paths path verb).isSome = true ↔
      ∃ operations, (path, operations) ∈ paths ∧ verb ∈ Dict.keys operations := by
  simp only [Option.isSome_iff_exists, h.routeOf_eq_some_iff, Dict.mem_keys]
  constructor
  · rintro ⟨o, operations, hp, ho⟩
    exact ⟨operations, hp, o, ho⟩
  · rintro ⟨operations, hp, o, ho⟩
    exact ⟨o, operations, hp, ho⟩

/-- The number of stored operations. -/
def size (paths : Dict (Dict Operation)) : ℕ := (paths.flatMap fun p => p.2.map (·.2)).length

/-- One more operation is stored, unless one was replaced. -/
theorem size_putRoute (h : Routed paths) (path verb : String) (o : Operation) :
    size (putRoute path verb o paths) + (routeOf paths path verb).toList.length =
      size paths + 1 := by
  have houter := Dict.length_flatMap_insert (fun d : Dict Operation => d.map (·.2)) path
    (Dict.insert verb o (verbsOf paths path)) h.sorted
  have hinner := Dict.length_insert verb o (h.sorted_verbsOf path)
  have hold : ((Dict.get? paths path).map fun d : Dict Operation => d.map (·.2)).getD [] =
      (verbsOf paths path).map (·.2) := by
    unfold verbsOf
    cases Dict.get? paths path <;> rfl
  rw [hold, List.length_map, List.length_map] at houter
  rw [get?_verbsOf] at hinner
  change (List.flatMap _ (Dict.insert path (Dict.insert verb o (verbsOf paths path)) paths)).length
    + _ = (List.flatMap _ paths).length + 1
  omega

/-! ## What is expected -/

/-- The last of some requests on a path and a verb. -/
def lastOn (rs : List (String × Request)) (path verb : String) : Option (String × Request) :=
  rs.reverse.find? fun r => documentPath r.2.template = path ∧ r.2.verb.lower = verb

theorem lastOn_append_singleton (rs : List (String × Request)) (r : String × Request)
    (path verb : String) : lastOn (rs ++ [r]) path verb =
      if documentPath r.2.template = path ∧ r.2.verb.lower = verb then some r
      else lastOn rs path verb := by
  unfold lastOn
  rw [List.reverse_append, List.reverse_singleton, List.singleton_append, List.find?_cons]
  split_ifs with h <;> simp [h]

theorem isSome_lastOn (rs : List (String × Request)) (path verb : String) :
    (lastOn rs path verb).isSome = true ↔
      ∃ r ∈ rs, documentPath r.2.template = path ∧ r.2.verb.lower = verb := by
  unfold lastOn
  simp [List.find?_isSome]

/-- The note of a request that comes after others, if its route is taken: it names the operation of
the last of them on the route, and the request. -/
def takeover (before : List (String × Request)) (r : String × Request) : List Note :=
  (lastOn before (documentPath r.2.template) r.2.verb.lower).toList.map fun old =>
    ⟨r.2.verb.upper ++ " " ++ documentPath r.2.template, .duplicateRoute,
      "route declared more than once; the later handler wins",
      ["replaced: " ++ old.2.name, "kept: " ++ (r.1 ++ "." ++ r.2.name)]⟩

/-- The notes of requests on the routes they take over, each from those before it. -/
def takeovers (rs : List (String × Request)) : List Note :=
  rs.zipIdx.flatMap fun r => takeover (rs.take r.2) r.1

theorem takeovers_append_singleton (rs : List (String × Request)) (r : String × Request) :
    takeovers (rs ++ [r]) = takeovers rs ++ takeover rs r := by
  unfold takeovers
  rw [List.zipIdx_append, List.flatMap_append]
  congr 1
  · refine List.flatMap_congr fun q hq => ?_
    have hlt : q.2 < rs.length := by
      have := List.snd_lt_of_mem_zipIdx hq
      omega
    rw [List.take_append_of_le_length hlt.le]
  · simp

/-! ## What holds after some requests -/

/-- The routes stored and the notes taken for some requests. -/
structure Table (c : Catalog) (rs : List (String × Request)) (paths : Dict (Dict Operation))
    (notes : List Note) : Prop where
  routed : Routed paths
  stored : ∀ path verb, routeOf paths path verb =
    (lastOn rs path verb).map fun r => (operation c r.1 r.2).value
  noted : notes.filter (fun n => n.code = .duplicateRoute) = takeovers rs
  counted : size paths + (takeovers rs).length = rs.length

theorem table_nil {notes : List Note}
    (h : notes.filter (fun n => n.code = .duplicateRoute) = []) : Table c [] [] notes :=
  ⟨routed_nil, fun _ _ => rfl, h, rfl⟩

/-- The note on a stored route is the one on the last request before. -/
theorem Table.routeNotes_eq {rs : List (String × Request)} {notes : List Note}
    (h : Table c rs paths notes) (r : String × Request) :
    routeNotes paths r.1 r.2 = takeover rs r := by
  unfold routeNotes takeover
  rw [h.stored]
  cases lastOn rs (documentPath r.2.template) r.2.verb.lower <;> rfl

theorem Table.length_takeover {rs : List (String × Request)} {notes : List Note}
    (h : Table c rs paths notes) (r : String × Request) : (takeover rs r).length =
      (routeOf paths (documentPath r.2.template) r.2.verb.lower).toList.length := by
  unfold takeover
  rw [h.stored]
  cases lastOn rs (documentPath r.2.template) r.2.verb.lower <;> rfl

/-- **One more request.** -/
theorem Table.addRoute {rs : List (String × Request)} {notes : List Note}
    (h : Table c rs paths notes) (r : String × Request) :
    Table c (rs ++ [r]) (addRoute c paths r.1 r.2).value
      (notes ++ (addRoute c paths r.1 r.2).notes) where
  routed := h.routed.putRoute _ _ _
  stored path verb := by
    change routeOf (putRoute _ _ _ paths) path verb = _
    rw [routeOf_putRoute, lastOn_append_singleton, h.stored]
    split_ifs <;> rfl
  noted := by
    have hnotes : (Document.addRoute c paths r.1 r.2).notes =
        (operation c r.1 r.2).notes ++ (routeNotes paths r.1 r.2 ++ []) := rfl
    rw [hnotes, List.append_nil, List.filter_append, List.filter_append, h.noted,
      (only_operation c r.1 r.2).filter_eq_nil (by decide), List.nil_append,
      h.routeNotes_eq, takeovers_append_singleton, List.filter_eq_self.mpr]
    intro n hn
    obtain ⟨old, -, rfl⟩ := List.mem_map.mp hn
    rfl
  counted := by
    have hsize := size_putRoute h.routed (documentPath r.2.template) r.2.verb.lower
      (operation c r.1 r.2).value
    have htaken := h.length_takeover r
    have hcounted := h.counted
    rw [takeovers_append_singleton, List.length_append, List.length_append, List.length_singleton]
    change size (putRoute _ _ _ paths) + _ = _
    omega

/-- **All requests**, one after the other. -/
theorem Table.addRoutes {rs : List (String × Request)} {notes : List Note}
    (h : Table c rs paths notes) (more : List (String × Request)) :
    Table c (rs ++ more) (addRoutes c paths more).value
      (notes ++ (addRoutes c paths more).notes) := by
  induction more generalizing rs paths notes with
  | nil =>
    rw [List.append_nil]
    change Table c rs paths (notes ++ [])
    rwa [List.append_nil]
  | cons r more ih =>
    have := ih (h.addRoute r)
    rw [List.append_assoc, List.append_assoc, List.singleton_append] at this
    exact this

/-- The routes and the notes of a document are those of all its requests. -/
theorem table_build (s : DocumentSettings) (controllers : List Controller) (c : Catalog) :
    Table c (requestsOf controllers) (build s controllers c).value.paths
      (build s controllers c).notes := by
  have hnil : Table c [] [] (addSchemas c [] c.declarations).notes :=
    table_nil ((only_addSchemas c [] c.declarations).filter_eq_nil (by decide))
  have h := hnil.addRoutes (requestsOf controllers)
  have hnotes : (build s controllers c).notes = (addSchemas c [] c.declarations).notes ++
      ((addRoutes c [] (requestsOf controllers)).notes ++ []) := rfl
  rw [hnotes, List.append_nil]
  exact h

/-- A request is the last one on its route, so that a document keeps its operation. -/
def Kept (rs : List (String × Request)) (r : String × Request) : Prop :=
  lastOn rs (documentPath r.2.template) r.2.verb.lower = some r

theorem kept_of_lastOn {rs : List (String × Request)} {path verb : String} {r : String × Request}
    (h : lastOn rs path verb = some r) : Kept rs r := by
  have hroute : documentPath r.2.template = path ∧ r.2.verb.lower = verb := by
    simpa using List.find?_some h
  rwa [Kept, hroute.1, hroute.2]

theorem Kept.mem {rs : List (String × Request)} {r : String × Request} (h : Kept rs r) : r ∈ rs :=
  List.mem_reverse.mp (List.mem_of_find?_eq_some h)

/-- The operations of a document are those of the requests that it keeps. -/
theorem mem_operations_build {s : DocumentSettings} {controllers : List Controller}
    {o : Operation} : o ∈ (build s controllers c).value.operations ↔
      ∃ r, Kept (requestsOf controllers) r ∧ o = (operation c r.1 r.2).value := by
  have h := table_build s controllers c
  constructor
  · intro ho
    obtain ⟨⟨path, operations⟩, hp, ho⟩ := List.mem_flatMap.mp ho
    obtain ⟨⟨verb, o⟩, hv, rfl⟩ := List.mem_map.mp ho
    have hroute := (h.routed.routeOf_eq_some_iff path verb o).mpr ⟨operations, hp, hv⟩
    rw [h.stored] at hroute
    obtain ⟨r, hr, rfl⟩ := Option.map_eq_some_iff.mp hroute
    exact ⟨r, kept_of_lastOn hr, rfl⟩
  · rintro ⟨r, hr, rfl⟩
    have hroute := h.stored (documentPath r.2.template) r.2.verb.lower
    rw [hr, Option.map_some, h.routed.routeOf_eq_some_iff] at hroute
    obtain ⟨operations, hp, ho⟩ := hroute
    exact List.mem_flatMap.mpr ⟨_, hp, List.mem_map.mpr ⟨_, ho, rfl⟩⟩

/-- Different methods stand under different keys. -/
theorem lower_injective : Function.Injective Verb.lower := by
  intro v w
  cases v <;> cases w <;> decide

/-- **The routes of a document** are those of the requests of its controllers, one controller after
the other, each route with the operation of the last request on it; the operations and the notes on
routes taken over count all requests. -/
theorem build_routes (s : DocumentSettings) (controllers : List Controller) (c : Catalog) :
    let d := (build s controllers c).value
    let requests := controllers.flatMap fun k => k.requests.map fun r => (k.name, r)
    let duplicates := (build s controllers c).notes.filter fun n => n.code = .duplicateRoute
    (∀ path verb, (∃ operations, (path, operations) ∈ d.paths ∧ verb ∈ Dict.keys operations) ↔
        ∃ r ∈ requests, documentPath r.2.template = path ∧ r.2.verb.lower = verb) ∧
      Function.Injective Verb.lower ∧
      (Dict.Sorted d.paths ∧ ∀ p ∈ d.paths, Dict.Sorted p.2 ∧ p.2 ≠ []) ∧
      (∀ path verb, routeOf d.paths path verb =
        (lastOn requests path verb).map fun r => (operation c r.1 r.2).value) ∧
      (∀ r ∈ requests, (operation c r.1 r.2).value.operationId = r.2.name ∧
        (operation c r.1 r.2).value.tags = [r.1]) ∧
      d.operations.length + duplicates.length = requests.length ∧
      duplicates = takeovers requests := by
  intro d requests duplicates
  have h : Table c requests d.paths (build s controllers c).notes := table_build s controllers c
  refine ⟨fun path verb => ?_, lower_injective, ⟨h.routed.sorted, fun p hp =>
    ⟨h.routed.verbs p hp, h.routed.nonempty p hp⟩⟩, h.stored, fun r _ => ⟨rfl, rfl⟩, ?_, h.noted⟩
  · rw [← h.routed.isSome_routeOf, h.stored, Option.isSome_map, isSome_lastOn]
  · rw [← h.counted, ← h.noted]
    rfl

end ApiSurface.Document
