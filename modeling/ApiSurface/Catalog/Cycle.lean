import ApiSurface.Catalog.Ancestry

/-!
# Inheritance cycles

Groups of declarations that are supertypes of each other.

* `Catalog.reaches`: one declaration lies above another by one or more links;
* `Catalog.cycleOf`: the declarations on cycles through a name;
* `Catalog.finishOrder`: an order of all declarations in which the groups are reported;
* `Catalog.build`: a catalog, with notes on replaced, missing and cyclic declarations.
-/

namespace ApiSurface.Catalog

/-- The declarations above a name by one or more links, itself included if it lies on a cycle. -/
def above (c : Catalog) (name : String) : List Declaration :=
  match c.get? name with
  | none => []
  | some d => c.spread Declaration.supertypes c.rounds d.supertypes []

/-- Whether a declaration lies above a name. -/
def reaches (c : Catalog) (name target : String) : Bool :=
  (c.above name).any fun d => d.name = target

/-- The names on cycles through a name, sorted. -/
def cycleOf (c : Catalog) (name : String) : List String :=
  (c.names.filter fun n => c.reaches name n && c.reaches n name).mergeSort

/-! ## The order of reporting -/

/-- The names with a link to a name, in the order of the links. -/
def subtypes (c : Catalog) (name : String) : List String :=
  (c.edges.filter fun l => c.nameAt? l.2 = some name).filterMap fun l => c.nameAt? l.1

/-- Depth first to the subtypes of a name, in order; a name is finished after all that it leads to.
`seen` has the names met so far, `done` those finished, the last one first. -/
def finish (c : Catalog) : (fuel : Nat) → (name : String) →
    (state : List String × List String) → List String × List String
  | 0, _, state => state
  | fuel + 1, name, (seen, done) =>
    if seen.contains name then (seen, done)
    else
      let (seen, done) := (c.subtypes name).foldl (fun state n => finish c fuel n state)
        (name :: seen, done)
      (seen, name :: done)

/-- All names, the one finished last first. -/
def finishOrder (c : Catalog) : List String :=
  (c.names.foldl (fun state n => c.finish (c.rounds + 1) n state) ([], [])).2

/-- The cycles through the given names, each once. -/
def cyclesThrough (c : Catalog) : (names reported : List String) → List (List String)
  | [], _ => []
  | n :: ns, reported =>
    if reported.contains n || !c.reaches n n then cyclesThrough c ns reported
    else c.cycleOf n :: cyclesThrough c ns (reported ++ c.cycleOf n)

/-- The cycles of a catalog. -/
def cycles (c : Catalog) : List (List String) := c.cyclesThrough c.finishOrder []

/-! ## Building -/

/-- The catalog of some entries, with notes on what was replaced, what is missing and what refers
back to itself. -/
def build (es : List Entry) : Noted Catalog := do
  let table ← Table.empty.collect es
  let c := table.link
  Noted.noteAll c.missingSupertypes
  Noted.noteAll (c.cycles.map Note.inheritanceCycle)
  return c

end ApiSurface.Catalog
