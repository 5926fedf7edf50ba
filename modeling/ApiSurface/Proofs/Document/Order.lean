import ApiSurface.Proofs.Document.Agreement
import ApiSurface.Proofs.Document.Components
import ApiSurface.Proofs.Document.Routes

/-!
# Documents do not depend on order

Routes and components are found by name. Where no name stands for two things, the order in which
declarations, controllers and requests are given leaves no trace.

* `Routed.ext`: stored routes are no more than what is found under each path and verb;
* `Reordered`, `routeKey`: controllers in another order, the route of a request;
* `lastOn_perm`: the last request on a route, where no two requests share one;
* **`build_reordered`**: a document does not depend on the order of its sources.
-/

namespace ApiSurface.Document

open ApiSurface.Route

/-! ## Look-up decides -/

section Routes

variable {paths paths' : Dict (Dict Operation)}

theorem Routed.get?_eq_some_iff (h : Routed paths) (path : String) (operations : Dict Operation) :
    Dict.get? paths path = some operations ↔
      operations = verbsOf paths path ∧ operations ≠ [] := by
  unfold verbsOf
  constructor
  · intro hp
    rw [hp]
    exact ⟨rfl, h.nonempty _ ((Dict.get?_eq_some_iff h.sorted _ _).mp hp)⟩
  · rintro ⟨rfl, hne⟩
    cases hp : Dict.get? paths path with
    | none =>
      rw [hp] at hne
      exact absurd rfl hne
    | some operations => rfl

/-- **Stored routes are no more than what is found under each path and verb.** -/
theorem Routed.ext (h : Routed paths) (h' : Routed paths')
    (heq : ∀ path verb, routeOf paths path verb = routeOf paths' path verb) : paths = paths' := by
  have hverbs : ∀ path, verbsOf paths path = verbsOf paths' path := by
    intro path
    refine (h.sorted_verbsOf path).ext (h'.sorted_verbsOf path) fun verb => ?_
    rw [get?_verbsOf, get?_verbsOf, heq]
  refine h.sorted.ext h'.sorted fun path => ?_
  ext operations
  rw [h.get?_eq_some_iff, h'.get?_eq_some_iff, hverbs]

end Routes

/-! ## Orders of controllers and requests -/

/-- The same controllers in some order, the requests of each in some order. -/
def Reordered (ks ks' : List Controller) : Prop :=
  ∃ mid, ks.Perm mid ∧ List.Forall₂
    (fun k k' => ∃ rs, k.requests.Perm rs ∧ k' = { k with requests := rs }) mid ks'

/-- The path and the verb of a request. -/
def routeKey (r : String × Request) : String × String :=
  (documentPath r.2.template, r.2.verb.lower)

theorem Reordered.requestsOf {ks ks' : List Controller} (h : Reordered ks ks') :
    (requestsOf ks).Perm (requestsOf ks') := by
  obtain ⟨mid, hperm, hall⟩ := h
  refine (hperm.flatMap_right _).trans ?_
  clear hperm
  induction hall with
  | nil => exact List.Perm.refl _
  | cons hk _ ih =>
    obtain ⟨rs, hrs, rfl⟩ := hk
    exact (hrs.map _).append ih

/-- Where no two requests share a route, the last request on one does not depend on order. -/
theorem lastOn_perm {rs rs' : List (String × Request)} (h : rs.Perm rs')
    (hrs : (rs.map routeKey).Nodup) (path verb : String) :
    lastOn rs path verb = lastOn rs' path verb := by
  refine find?_perm ((List.reverse_perm _).trans (h.trans (List.reverse_perm _).symm)) ?_
  intro x hx y hy hxp hyp
  have hx' := of_decide_eq_true hxp
  have hy' := of_decide_eq_true hyp
  refine List.inj_on_of_nodup_map hrs (List.mem_reverse.mp hx) (List.mem_reverse.mp hy) ?_
  exact Prod.ext (hx'.1.trans hy'.1.symm) (hx'.2.trans hy'.2.symm)

/-! ## Documents -/

/-- **A document does not depend on the order of its sources**: if no two exported declarations
share a name and no two requests a route, its paths and its components stay the same for
declarations, controllers and requests in any order. -/
theorem build_reordered (s : DocumentSettings) {es es' : List Entry} {ks ks' : List Controller}
    (hes : es.Perm es') (hks : Reordered ks ks')
    (hnames : ((Catalog.exported es).map Entry.name).Nodup)
    (hroutes : ((requestsOf ks).map routeKey).Nodup) :
    let d := (build s ks (Catalog.build es).value).value
    let d' := (build s ks' (Catalog.build es').value).value
    d.paths = d'.paths ∧ d.schemas = d'.schemas := by
  intro d d'
  have hagrees := Catalog.agrees_build hes hnames
  have htable := table_build s ks (Catalog.build es).value
  have htable' := table_build s ks' (Catalog.build es').value
  constructor
  · refine htable.routed.ext htable'.routed fun path verb => ?_
    rw [htable.stored, htable'.stored, lastOn_perm hks.requestsOf hroutes]
    simp only [hagrees.operation]
  · refine (sorted_schemas_build _ s ks).ext (sorted_schemas_build _ s ks') fun n => ?_
    rw [get?_schemas_build, get?_schemas_build, hagrees n]
    simp only [hagrees.synthesize]

/-- An interface below another one, and an alias for lists of it. -/
def sampleEntries : List Entry :=
  let property (name : String) (type : TypeExpr) : Property := ⟨name, type, false, none⟩
  [⟨⟨"Item", none, true, .interface ⟨[property "id" (.keyword .string)], ["Base"], []⟩⟩, "a.ts"⟩,
    ⟨⟨"Base", none, true, .interface ⟨[property "at" (.reference "Date" [])], [], []⟩⟩, "b.ts"⟩,
    ⟨⟨"Items", none, true, .alias (.array (.reference "Item" [])) []⟩, "c.ts"⟩]

/-- A controller of two requests. -/
def itemsController : Controller := ⟨"Items", "a.ts", "/items", none,
  [⟨"all", none, "/items", .get, [], none, none, .reference "Items" []⟩,
    ⟨"add", none, "/items", .post, [], none, none, .reference "Item" []⟩]⟩

/-- A controller of one request. -/
def pingController : Controller := ⟨"Ping", "b.ts", "/ping", none,
  [⟨"ping", none, "/ping", .get, [], none, none, .void⟩]⟩

theorem build_reordered_sample :
    let s : DocumentSettings := ⟨"api.json", "API", "1.0", none, false⟩
    let ks' :=
      [pingController, { itemsController with requests := itemsController.requests.reverse }]
    let d := (build s [itemsController, pingController] (Catalog.build sampleEntries).value).value
    let d' := (build s ks' (Catalog.build sampleEntries.reverse).value).value
    d.paths = d'.paths ∧ d.schemas = d'.schemas := by
  refine build_reordered _ (List.reverse_perm _).symm ⟨[pingController, itemsController],
    List.Perm.swap _ _ _, ?_⟩ ?_ ?_
  · refine .cons ⟨_, List.Perm.refl _, rfl⟩ (.cons ⟨_, ?_, rfl⟩ .nil)
    exact (List.reverse_perm _).symm
  · decide
  · decide

end ApiSurface.Document
