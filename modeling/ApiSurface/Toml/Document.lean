import ApiSurface.Toml.Scalar

/-!
# TOML documents

A document is read in two passes: its statements one after another, and the table they build.

* `Statement`: a header, or a value under a key;
* `Node`: the table as far as it is built; a header may not reopen what is closed;
* `read?`: the entries of a document.
-/

namespace ApiSurface.Toml

/-- The entries of a table that is being built, as nodes. -/
inductive Form
  | header
  | implied
  | dotted
deriving DecidableEq, Repr

/-- What stands under a key: a value, a table with the way it came to be, or a list of tables of
which the last one is open. -/
inductive Node
  | value (v : Value)
  | table (form : Form) (entries : List (String × Node))
  | tables (closed : List (List (String × Node))) (last : List (String × Node))
deriving Inhabited

/-- Entries by key, in the order in which they came. -/
abbrev Entries : Type := List (String × Node)

/-! ## Building tables -/

namespace Entries

/-- Another node under a key that is there. -/
def replace (k : String) (n : Node) (es : Entries) : Entries :=
  es.map fun e => if e.1 = k then (k, n) else e

/-- A node under a new key. -/
def add? (k : String) (n : Node) (es : Entries) : Option Entries :=
  if (es.lookup k).isSome then none else some (es ++ [(k, n)])

/-- Change the table at a path. Tables on the way are made if they are missing; a dotted path does
not lead into a table that has a header. The change is told whether its table is a dotted one. -/
def within (dotted : Bool) (change : Bool → Entries → Option Entries) :
    List String → Bool → Entries → Option Entries
  | [], isDotted, es => change isDotted es
  | k :: path, _, es =>
    match es.lookup k with
    | none => do
      let t ← within dotted change path dotted []
      return es ++ [(k, .table (if dotted then .dotted else .implied) t)]
    | some (.value _) => none
    | some (.table form t) =>
      if dotted ∧ form = .header then none
      else do
        let t ← within dotted change path (form == .dotted) t
        return replace k (.table form t) es
    | some (.tables closed t) => do
      let t ← within dotted change path false t
      return replace k (.tables closed t) es

/-- A value under a dotted key: its table is the one at hand, or one made by dotted keys. -/
def assign? (path : List String) (k : String) (n : Node) (es : Entries) : Option Entries :=
  within true (fun isDotted es => if isDotted == path.isEmpty then none else es.add? k n)
    path false es

/-- The table of a header: a new one, or one that was only implied so far. -/
def open? (k : String) (es : Entries) : Option Entries :=
  match es.lookup k with
  | none => some (es ++ [(k, .table .header [])])
  | some (.table .implied t) => some (replace k (.table .header t) es)
  | some _ => none

/-- The next table of a list of tables. -/
def openNext? (k : String) (es : Entries) : Option Entries :=
  match es.lookup k with
  | none => some (es ++ [(k, .tables [] [])])
  | some (.tables closed t) => some (replace k (.tables (closed ++ [t]) []) es)
  | some _ => none

end Entries

mutual

/-- A finished node as a value. -/
def Node.seal : Node → Value
  | .value v => v
  | .table _ es => .table (sealEntries es)
  | .tables closed last => .list (sealTables closed ++ [.table (sealEntries last)])

/-- Finished entries as values. -/
def sealEntries : List (String × Node) → List (String × Value)
  | [] => []
  | (k, n) :: es => (k, n.seal) :: sealEntries es

/-- Finished tables as values. -/
def sealTables : List (List (String × Node)) → List Value
  | [] => []
  | t :: ts => .table (sealEntries t) :: sealTables ts

end

/-! ## Keys -/

/-- Characters of a bare key. -/
def isBare (c : Char) : Bool := c.isAlphanum || c == '_' || c == '-'

/-- One part of a key: bare, or a string on one line. -/
def keyPart (cs : List Char) : Option (String × List Char) :=
  match cs with
  | '"' :: _ => (lineString cs).map fun (s, r) => (String.ofList s, r)
  | '\'' :: _ => (lineString cs).map fun (s, r) => (String.ofList s, r)
  | _ => if (cs.takeWhile isBare).isEmpty then none
    else some (String.ofList (cs.takeWhile isBare), cs.dropWhile isBare)

/-- How deep tables and lists may be nested. -/
def depthLimit : Nat := 79

/-- The parts of a dotted key, so many at most; blanks may surround each. -/
def dottedKey : (most : Nat) → List Char → Option (List String × List Char)
  | 0, _ => none
  | most + 1, cs => do
    let (k, r) ← keyPart (skipBlanks cs)
    match skipBlanks r with
    | '.' :: r => do
      let (ks, r) ← dottedKey most r
      return (k :: ks, r)
    | r => return ([k], r)

/-- A dotted key as the path of its table and the key in it. -/
def keyPath (cs : List Char) : Option (List String × String × List Char) := do
  let (ks, r) ← dottedKey depthLimit cs
  let k ← ks.getLast?
  return (ks.dropLast, k, r)

/-! ## Values -/

/-- A comment up to the end of its line. -/
def skipComment (cs : List Char) : List Char :=
  match cs with
  | '#' :: r => r.dropWhile isPlain
  | _ => cs

/-- The text behind blanks, line breaks and comments; the fuel bounds their number. -/
def skipGaps : (fuel : Nat) → List Char → List Char
  | 0, cs => cs
  | fuel + 1, cs =>
    let r := skipBlanks cs
    match afterBreak (skipComment r) with
    | some r => skipGaps fuel r
    | none => r

mutual

/-- A value; the fuel bounds the length of its text, the depth how far it is nested. -/
def value : (fuel depth : Nat) → List Char → Option (Value × List Char)
  | 0, _, _ => none
  | fuel + 1, depth, cs =>
    match cs with
    | '[' :: r =>
      if depth = 0 then none
      else (items fuel (depth - 1) (skipGaps fuel r)).map fun (vs, r) => (.list vs, r)
    | '{' :: r =>
      if depth = 0 then none
      else match skipBlanks r with
        | '}' :: r => some (.table [], r)
        | r => (members fuel (depth - 1) [] r).map fun (es, r) => (.table (sealEntries es), r)
    | _ => scalar cs

/-- The items of a list up to its end; a comma may follow the last one. -/
def items : (fuel depth : Nat) → List Char → Option (List Value × List Char)
  | 0, _, _ => none
  | fuel + 1, depth, cs =>
    match cs with
    | ']' :: r => some ([], r)
    | _ =>
      match value fuel depth cs with
      | none => none
      | some (v, r) =>
        match skipGaps fuel r with
        | ',' :: r => (items fuel depth (skipGaps fuel r)).map fun (vs, r) => (v :: vs, r)
        | ']' :: r => some ([v], r)
        | _ => none

/-- The members of a table on one line up to its end, behind those in front of them. -/
def members : (fuel depth : Nat) → Entries → List Char → Option (Entries × List Char)
  | 0, _, _, _ => none
  | fuel + 1, depth, es, cs =>
    match keyPath cs with
    | some (path, k, '=' :: r) =>
      match value fuel depth (skipBlanks r) with
      | none => none
      | some (v, r) =>
        match es.assign? path k (.value v), skipBlanks r with
        | some es, ',' :: r => members fuel depth es r
        | some es, '}' :: r => some (es, r)
        | _, _ => none
    | _ => none

end

/-! ## Statements -/

/-- A header that opens a table, one that opens the next table of a list, or a value under a key;
each with the path of the table that it changes. -/
inductive Statement
  | table (path : List String) (key : String)
  | next (path : List String) (key : String)
  | assign (path : List String) (key : String) (value : Value)

/-- The text behind the end of a line; a comment may stand in front of it. -/
def lineEnd (cs : List Char) : Option (List Char) :=
  match skipComment (skipBlanks cs) with
  | [] => some []
  | r => afterBreak r

/-- A header behind its first bracket. -/
def header : List Char → Option (Statement × List Char)
  | '[' :: r =>
    match keyPath r with
    | some (path, k, ']' :: ']' :: r) => some (.next path k, r)
    | _ => none
  | r =>
    match keyPath r with
    | some (path, k, ']' :: r) => some (.table path k, r)
    | _ => none

/-- A value under a key. -/
def assignment (cs : List Char) : Option (Statement × List Char) :=
  match keyPath cs with
  | some (path, k, '=' :: r) =>
    (value (r.length + 1) depthLimit (skipBlanks r)).map fun (v, r) => (.assign path k v, r)
  | _ => none

/-- The statement at the front of a text. -/
def statement : List Char → Option (Statement × List Char)
  | '[' :: r => header r
  | r => assignment r

/-- The statements of a text; the fuel bounds their number. -/
def statements : (fuel : Nat) → List Char → Option (List Statement)
  | 0, _ => none
  | fuel + 1, cs =>
    match skipGaps cs.length cs with
    | [] => some []
    | '#' :: r => if (r.dropWhile isPlain).isEmpty then some [] else none
    | r => do
      let (s, r) ← statement r
      let r ← lineEnd r
      return s :: (← statements fuel r)

/-! ## Documents -/

/-- A document as far as it is built, and the path of the table that is open. -/
structure Draft where
  entries : Entries
  here : List String

/-- Carry out a statement. -/
def Draft.step (d : Draft) : Statement → Option Draft
  | .table path k => do
    let es ← d.entries.within false (fun _ es => es.open? k) path false
    return ⟨es, path ++ [k]⟩
  | .next path k => do
    let es ← d.entries.within false (fun _ es => es.openNext? k) path false
    return ⟨es, path ++ [k]⟩
  | .assign path k v => do
    let es ← d.entries.within false (fun _ es => es.assign? path k (.value v)) d.here false
    return ⟨es, d.here⟩

/-- A mark for the order of bytes in front of a text does not belong to it. -/
def withoutMark : List Char → List Char
  | '\ufeff' :: r => r
  | r => r

/-- The entries of a document. -/
def read? (text : String) : Option (List (String × Value)) := do
  let cs := withoutMark text.toList
  let ss ← statements (cs.length + 1) cs
  let d ← ss.foldlM Draft.step ⟨[], []⟩
  return sealEntries d.entries

end ApiSurface.Toml
