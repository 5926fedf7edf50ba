import ApiSurface.Text.Blank
import ApiSurface.Yaml.Block
import ApiSurface.Yaml.Scalar

/-!
# YAML documents

* `Properties`, `Atom`: what stands in front of a node, and a node that indentation does not
  structure;
* `blockNode`, `flowNode`: nodes structured by indentation and by brackets;
* `Yaml.read?`: the entries of the only document of a text; no document has none.

A mapping has each key once, and its keys are scalars. What stands in a node is in a column from
`floor` on.
-/

namespace ApiSurface.Yaml

/-! ## Properties -/

/-- The name of a node and its tag. -/
structure Properties where
  anchor : Option String
  tag : Tag

/-- No name and no tag. -/
def Properties.none : Properties := ⟨.none, .none⟩

/-- Whether there is neither a name nor a tag. -/
def Properties.isNone (p : Properties) : Bool := p.anchor.isNone && p.tag == .none

/-- Properties from two places; no node has two of a kind. -/
def Properties.merge? (p q : Properties) : Option Properties :=
  if (p.anchor.isSome && q.anchor.isSome) || (p.tag != .none && q.tag != .none) then .none
  else some ⟨p.anchor.or q.anchor, if p.tag = .none then q.tag else p.tag⟩

/-- Characters of the names of nodes. -/
def isAnchorChar (c : Char) : Bool := !isBlank c && !isBreak c && !isFlowMark c

/-- The name of a node behind its mark. -/
def anchorName (c : Cursor) : Option (String × Cursor) :=
  let name := c.rest.takeWhile isAnchorChar
  if name.isEmpty then none else some (String.ofList name, c.step name.length)

/-- Characters of the handles of tags. -/
def isHandleChar (c : Char) : Bool := c.isAlphanum || c == '_' || c == '-'

/-- What the handles of core types stand for. -/
def coreHandle : String := "tag:yaml.org,2002:"

/-- What a handle and a name make up as a tag; a handle with a name of its own must be known. -/
def tagOf? (handles : List (String × String)) (handle name : String) : Option Tag :=
  match handles.lookup handle with
  | some h => some (if h = coreHandle then .type name else .other)
  | none =>
    if handle = "!!" then some (.type name)
    else if handle.length < 2 then some .other
    else none

/-- A tag behind its mark. -/
def tagName (c : Cursor) : Option (Tag × Cursor) :=
  match c.rest with
  | '<' :: r =>
    match r.dropWhile (· != '>') with
    | '>' :: s => if s.length + 1 < r.length then some (.other, c.jump s) else none
    | _ => none
  | r =>
    let first := r.takeWhile isHandleChar
    match r.drop first.length with
    | '!' :: s =>
      let name := s.takeWhile isAnchorChar
      if name.isEmpty then none
      else
        (tagOf? c.handles (String.ofList ('!' :: first ++ ['!'])) (String.ofList name)).map fun t =>
          (t, c.step (first.length + 1 + name.length))
    | _ =>
      let name := r.takeWhile isAnchorChar
      (tagOf? c.handles "!" (String.ofList name)).map fun t => (t, c.step name.length)

/-- Whether what stands in front of a node ends here. -/
def endsProperty (flow : Bool) (c : Cursor) : Bool :=
  isGap c.rest || (flow && c.rest.head?.any isFlowMark)

/-- A name or a tag. -/
def property (flow : Bool) (c : Cursor) : Option (Properties × Cursor) := do
  let (p, d) ← match c.rest with
    | '&' :: _ => (anchorName (c.step 1)).map fun q => (⟨some q.1, .none⟩, q.2)
    | '!' :: _ => (tagName (c.step 1)).map fun q => (⟨none, q.1⟩, q.2)
    | _ => none
  if endsProperty flow d then return (p, d.blanks) else none

/-- A name, a tag, both or neither on one line. -/
def properties (flow : Bool) (c : Cursor) : Option (Properties × Cursor) :=
  match c.rest with
  | x :: _ =>
    if x = '&' ∨ x = '!' then do
      let (p, d) ← property flow c
      if d.rest.head? = some '&' ∨ d.rest.head? = some '!' then
        let (q, e) ← property flow d
        return (← p.merge? q, e)
      else return (p, d)
    else some (.none, c)
  | [] => some (.none, c)

/-! ## Atoms -/

/-- A node that indentation does not structure. -/
inductive Atom
  | plain (text : String)
  | quoted (text : String)
  | alias (node : Node)
  | flow (node : Node)

/-- Whether a value may stand right behind the colon, if the atom is a key in brackets. -/
def Atom.isClosed : Atom → Bool
  | .plain _ => false
  | .alias _ => false
  | _ => true

/-- The node of an atom with its properties, and the place behind it, where its name is known. -/
def Atom.node? (p : Properties) (a : Atom) (c : Cursor) : Option (Node × Cursor) :=
  let named (n : Node) : Node × Cursor :=
    (n, { c with anchors := (p.anchor.map fun name => (name, n)).toList ++ c.anchors })
  match a with
  | .plain s => some (named (Node.ofTagged p.tag s))
  | .quoted s => some (named (Node.text s))
  | .flow n => some (named n)
  | .alias n => if p.isNone then some (n, c) else none

/-- Nothing, with its properties. -/
def emptyNode (p : Properties) (c : Cursor) : Option (Node × Cursor) :=
  if p.isNone then some (Node.null, c) else (Atom.plain "").node? p c

/-- A node that another one stands for. -/
def aliased (c : Cursor) : Option (Atom × Cursor) := do
  let (name, d) ← anchorName (c.step 1)
  return (.alias (← c.anchors.lookup name), d)

/-! ## Entries -/

/-- Entries of a mapping that have a key and a value each, in their order. -/
abbrev Entries : Type := List (Key × Value)

/-- One more entry; its key must be new. -/
def addEntry (es : Entries) (k v : Node) : Option Entries := do
  let k ← k.key
  let v ← v.value
  if es.any fun e => e.1 = k then none else return es ++ [(k, v)]

/-- A node of entries. -/
def Node.ofEntries (es : Entries) : Node :=
  ⟨none, some (.table (Json.lastOf (es.map fun e => (e.1.name, e.2))))⟩

/-- A node of others; each must have a value. -/
def Node.ofItems (ns : List Node) : Node := ⟨none, (ns.mapM Node.value).map .list⟩

/-! ## Nodes in brackets -/

/-- Whether a colon separates a key from its value here. -/
def isColon (flow closed : Bool) (c : Cursor) : Bool :=
  match c.rest with
  | ':' :: r => isGap r || (flow && (closed || r.head?.any isFlowMark))
  | _ => false

/-- Whether a node in brackets is left out here. -/
def isMissing (c : Cursor) : Bool := c.rest.head?.any fun x => x == ',' || x == ']' || x == '\x7d'

mutual

/-- An atom. The fuel bounds the number of nodes. -/
def atom (flow : Bool) (floor : Nat) : (fuel : Nat) → Cursor → Option (Atom × Cursor)
  | 0, _ => none
  | fuel + 1, c =>
    match c.rest with
    | [] => none
    | x :: _ =>
      if x = '[' then do
        let (ns, d) ← flowItems floor fuel [] (c.step 1)
        return (.flow (Node.ofItems ns), d)
      else if x = '\x7b' then do
        let (es, d) ← flowEntries floor fuel [] (c.step 1)
        return (.flow (Node.ofEntries es), d)
      else if x = '*' then aliased c
      else if x = '"' ∨ x = '\'' then (quoted floor c).map fun p => (.quoted p.1, p.2)
      else (plain flow floor c).map fun p => (.plain p.1, p.2)
termination_by structural fuel => fuel

/-- A node in brackets, and whether a value may stand right behind the colon. -/
def flowNode (floor : Nat) : (fuel : Nat) → Cursor → Option (Node × Bool × Cursor)
  | 0, _ => none
  | fuel + 1, c => do
    let (p, d) ← properties true c
    let d ← if p.isNone then some d else d.skip floor
    if isMissing d || isColon true false d then
      let (n, e) ← emptyNode p d
      return (n, false, e)
    else
      let (a, e) ← atom true floor fuel d
      let (n, e) ← a.node? p e
      return (n, a.isClosed, e)
termination_by structural fuel => fuel

/-- The value behind a colon in brackets. -/
def flowValue (floor : Nat) : (fuel : Nat) → Cursor → Option (Node × Cursor)
  | 0, _ => none
  | fuel + 1, c => do
    let d ← c.skip floor
    if isMissing d then return (Node.null, d)
    else
      let (n, _, e) ← flowNode floor fuel d
      return (n, e)
termination_by structural fuel => fuel

/-- The items of a list behind those that are read. An item may be a single entry. -/
def flowItems (floor : Nat) : (fuel : Nat) → List Node → Cursor → Option (List Node × Cursor)
  | 0, _, _ => none
  | fuel + 1, ns, c => do
    let c ← c.skip (floor - 1)
    if c.rest.head? = some ']' then return (ns, c.step 1)
    else
      let explicit := c.isIndicator '?'
      let c ← if explicit then (c.step 1).skip floor else some c
      if c.atEnd || (isMissing c && !explicit) then none
      else
        let (k, closed, d) ← flowNode floor fuel c
        let e ← d.skip (floor - 1)
        let (n, e) ← if isColon true closed e then
            if e.line = c.line ∨ explicit then do
              let (v, e) ← flowValue floor fuel (e.step 1)
              some (Node.ofEntries (← addEntry [] k v), ← e.skip (floor - 1))
            else none
          else if explicit then do some (Node.ofEntries (← addEntry [] k Node.null), e)
          else some (k, e)
        match e.rest with
        | ',' :: _ => flowItems floor fuel (ns ++ [n]) (e.step 1)
        | ']' :: _ => return (ns ++ [n], e.step 1)
        | _ => none
termination_by structural fuel => fuel

/-- The entries of a mapping behind those that are read. -/
def flowEntries (floor : Nat) : (fuel : Nat) → Entries → Cursor → Option (Entries × Cursor)
  | 0, _, _ => none
  | fuel + 1, es, c => do
    let c ← c.skip (floor - 1)
    if c.rest.head? = some '\x7d' then return (es, c.step 1)
    else
      let c ← if c.isIndicator '?' then (c.step 1).skip floor else some c
      if c.atEnd || isMissing c then none
      else
        let (k, closed, d) ← flowNode floor fuel c
        let e ← d.skip (floor - 1)
        let (v, e) ← if isColon true closed e then do
            let (v, e) ← flowValue floor fuel (e.step 1)
            some (v, ← e.skip (floor - 1))
          else some (Node.null, e)
        let es ← addEntry es k v
        match e.rest with
        | ',' :: _ => flowEntries floor fuel es (e.step 1)
        | '\x7d' :: _ => return (es, e.step 1)
        | _ => none
termination_by structural fuel => fuel

end

/-! ## Nodes by indentation -/

/-- The place behind a mark of one character, unless only tabs separate it from a word. -/
def behindColon (c : Cursor) : Option Cursor :=
  let d := c.step 1
  let gap := d.rest.takeWhile isBlank
  let next := (d.rest.drop gap.length).head?
  if gap.head? = some '\t' && !gap.contains ' ' && next.any fun x => x == '-' || x.isAlphanum then
    none
  else some d

/-- The place behind a dash, unless tabs separate it from another one. -/
def behindDash (c : Cursor) : Option Cursor :=
  let d := c.step 1
  if (d.rest.takeWhile isBlank).contains '\t' && d.blanks.isIndicator '-' then none else some d

/-- Whether a text by indentation starts here. -/
def startsText (c : Cursor) : Bool := c.rest.head?.any fun x => x == '|' || x == '>'

mutual

/-- A node; only a list as the value of an entry may stand in the column of its key, `deep`. Where
`fresh` holds, a list or a mapping may start on this line. The fuel bounds the number of nodes. -/
def blockNode (floor deep : Nat) :
    (fuel : Nat) → (fresh : Bool) → Properties → Cursor → Option (Node × Cursor)
  | 0, _, _, _ => none
  | fuel + 1, fresh, outer, c => do
    let c ← c.skip floor
    let fresh := fresh || c.leading
    if c.atEnd || (c.leading && c.col < floor && !(c.isIndicator '-' && deep ≤ c.col)) then
      emptyNode outer c
    else if c.isIndicator '-' then
      if fresh then
        let (ns, d) ← blockItems c.col (c.col < floor) fuel [] c
        (Atom.flow (Node.ofItems ns)).node? outer d
      else none
    else if c.isIndicator '?' then
      if fresh then
        let (es, d) ← moreEntries c.col fuel [] { c with leading := true }
        (Atom.flow (Node.ofEntries es)).node? outer d
      else none
    else if startsText c then
      let (s, d) ← blockText floor c
      (Atom.quoted s).node? outer d
    else
      let (inner, d) ← properties false c
      if !inner.isNone && d.endsLine then
        blockNode floor deep fuel false (← outer.merge? inner) d.lineEnd
      else if startsText d then
        let (s, e) ← blockText floor d
        (Atom.quoted s).node? (← outer.merge? inner) e
      else
        let (a, e) ← atom false floor fuel d
        if isColon false false e.blanks then
          if fresh && e.line = c.line then
            let (k, e) ← a.node? inner e
            let (es, e) ← blockEntries c.col fuel [] k e.blanks
            (Atom.flow (Node.ofEntries es)).node? outer e
          else none
        else a.node? (← outer.merge? inner) e
termination_by structural fuel => fuel

/-- The entries of a mapping in a column, from the value of the key on that was read. -/
def blockEntries (col : Nat) :
    (fuel : Nat) → Entries → (key : Node) → Cursor → Option (Entries × Cursor)
  | 0, _, _, _ => none
  | fuel + 1, es, k, c => do
    let (v, d) ← blockNode (col + 1) col fuel false .none (← behindColon c)
    moreEntries col fuel (← addEntry es k v) d
termination_by structural fuel => fuel

/-- The entries of a mapping in a column behind those that are read. -/
def moreEntries (col : Nat) : (fuel : Nat) → Entries → Cursor → Option (Entries × Cursor)
  | 0, _, _ => none
  | fuel + 1, es, c => do
    let c ← c.skip col
    if c.atEnd || (c.leading && c.col < col) then return (es, c)
    else if !c.leading || col < c.col then none
    else if c.isIndicator '?' then
      let (k, d) ← blockNode (col + 1) col fuel true .none (c.step 1)
      let e ← d.skip col
      if !e.atEnd && e.leading && e.col = col && e.isIndicator ':' then
        let (v, e) ← blockNode (col + 1) col fuel true .none (e.step 1)
        moreEntries col fuel (← addEntry es k v) e
      else moreEntries col fuel (← addEntry es k Node.null) e
    else
      let (p, d) ← properties false c
      let (a, e) ← atom false (col + 1) fuel d
      if isColon false false e.blanks && e.line = c.line then
        let (k, e) ← a.node? p e
        blockEntries col fuel es k e.blanks
      else none
termination_by structural fuel => fuel

/-- The items of a list in a column behind those that are read; a list as the value of an entry ends
with the next key. -/
def blockItems (col : Nat) (isValue : Bool) :
    (fuel : Nat) → List Node → Cursor → Option (List Node × Cursor)
  | 0, _, _ => none
  | fuel + 1, ns, c => do
    let (n, d) ← blockNode (col + 1) (col + 1) fuel true .none (← behindDash c)
    let e ← d.skip col
    if e.atEnd || (e.leading && e.col < col) then return (ns ++ [n], e)
    else if !e.leading || col < e.col then none
    else if e.isIndicator '-' then blockItems col isValue fuel (ns ++ [n]) e
    else if isValue then return (ns ++ [n], e)
    else none
termination_by structural fuel => fuel

end

/-! ## Documents -/

/-- A directive that is understood and well-formed: a version, or what a handle of tags stands for;
any other is skipped. -/
def directive (c : Cursor) : Option Cursor :=
  let l := c.rest.takeWhile fun x => !isBreak x
  let fields := ((Text.splitAll isBlank l).filter fun w => !w.isEmpty).takeWhile fun w =>
    w.head? ≠ some '#'
  match fields with
  | ['%', 'Y', 'A', 'M', 'L'] :: more =>
    match more with
    | [w] =>
      match (Text.splitAll (· == '.') w).map fun ds => Numeral.digitsIn 10 ds with
      | [some _, some _] => some c.lineEnd
      | _ => none
    | _ => none
  | ['%', 'T', 'A', 'G'] :: more =>
    match more with
    | [h, p] => some { c.lineEnd with handles := (String.ofList h, String.ofList p) :: c.handles }
    | _ => none
  | _ => some c.lineEnd

/-- The place of the first document, if there is one, and whether its start is marked. The fuel
bounds the number of lines. -/
def firstDocument : (fuel : Nat) → (directed : Bool) → Cursor → Option (Option (Bool × Cursor))
  | 0, _, _ => none
  | fuel + 1, directed, c => do
    let c ← c.skip 0
    if c.rest.isEmpty then if directed then none else return none
    else if c.col = 0 ∧ c.rest.head? = some '%' then firstDocument fuel true (← directive c)
    else if c.isStart then return some (true, c.step 3)
    else if directed then none
    else if c.isStop then
      if (c.step 3).endsLine then firstDocument fuel false (c.step 3).lineEnd else none
    else return some (false, c)

/-- Whether no other document follows. -/
def isLast (c : Cursor) : Bool :=
  match c.skip 0 with
  | none => false
  | some c =>
    c.rest.isEmpty || (c.isStop && (c.step 3).endsLine &&
      match firstDocument (c.rest.length + 1) false (c.step 3).lineEnd with
      | some none => true
      | _ => false)

/-- The entries of a text. -/
def read? (text : String) : Option (List (String × Value)) := do
  let cs := text.toList.takeWhile (· != '\x00')
  match ← firstDocument (cs.length + 1) false ⟨cs, 0, 0, true, true, [], []⟩ with
  | none => return []
  | some (marked, c) =>
    let (n, d) ← blockNode 0 0 (4 * cs.length + 8) (!marked) .none c
    match n.value with
    | some (.table es) => if isLast d then return es else none
    | _ => none

end ApiSurface.Yaml
