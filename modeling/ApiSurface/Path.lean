import ApiSurface.Text.Blank

/-!
# Paths

Paths are texts with `/` between their components.

* `Component`, `components`: what a path is made of; repeated separators and inner `.` vanish;
* `fileName?`, `stem`, `directory`: the last component, with and without its extension, and the
  rest;
* `parent`: the directory that a path lies in, as a path;
* `isAbsolute`, `join`: a path below a directory, unless it is absolute already;
* `seenFrom`: a path as it is written from a directory that it begins with.
-/

namespace ApiSurface.Path

open ApiSurface.Text

/-- A component of a path. -/
inductive Component
  | root
  | here
  | up
  | name (text : String)
deriving DecidableEq, Repr

/-- The component a piece between separators stands for, if any. -/
def component? (piece : String) : Option Component :=
  if piece = "" then none
  else if piece = "." then none
  else if piece = ".." then some .up
  else some (.name piece)

/-- A leading separator is the root. -/
def isAbsolute (path : String) : Bool := path.toList.head? == some '/'

/-- The components of a path; only a leading `.` is kept. -/
def components (path : String) : List Component :=
  let pieces := splitOn '/' path
  let rest := pieces.filterMap component?
  if isAbsolute path then .root :: rest
  else if pieces.head? = some "." then .here :: rest
  else rest

/-- The name of a component that has one. -/
def Component.name? : Component → Option String
  | .name text => some text
  | _ => none

/-- The names among the components of a path. -/
def names (path : String) : List String := (components path).filterMap Component.name?

/-- The last component, if it is a name. -/
def fileName? (path : String) : Option String := (components path).getLast?.bind Component.name?

/-- What stands before the last occurrence of a character, if it occurs. -/
def beforeLast (c : Char) (cs : List Char) : Option (List Char) :=
  match cs.reverse.dropWhile (· != c) with
  | [] => none
  | _ :: r => some r.reverse

/-- A file name without its extension; a dot in front starts none. -/
def stem (name : String) : String :=
  match beforeLast '.' name.toList with
  | none => name
  | some [] => name
  | some cs => String.ofList cs

/-- The components of the directory a path lies in; none above the root or an empty path. -/
def directory? (path : String) : Option (List Component) :=
  match (components path).reverse with
  | [] => none
  | .root :: _ => none
  | _ :: r => some r.reverse

/-- A component in the text of a path. -/
def Component.text : Component → String
  | .root => ""
  | .here => "."
  | .up => ".."
  | .name text => text

/-- The path of components. -/
def ofComponents : List Component → String
  | [] => "."
  | [.root] => "/"
  | cs => "/".intercalate (cs.map Component.text)

/-- The path of the directory that a path lies in. -/
def parent (path : String) : String := ofComponents ((directory? path).getD [])

/-- The names of the path, the last one without its extension, unless that leaves only dots. -/
def moduleNames (path : String) : List String :=
  match fileName? path with
  | none => names path
  | some file => (names path).dropLast ++ ((component? (stem file)).bind Component.name?).toList

/-- A path seen from a directory. -/
def join (dir path : String) : String :=
  if isAbsolute path then path
  else if dir = "" then path
  else if dir.toList.getLast? = some '/' then dir ++ path
  else dir ++ "/" ++ path

/-! ## Beginnings -/

/-- A path without one `./` at its front. -/
def withoutHere (path : String) : String :=
  match path.toList with
  | '.' :: '/' :: r => String.ofList r
  | _ => path

/-- What follows a beginning of a path and one separator, if the path has that beginning. -/
def behind? (front path : String) : Option String :=
  if front.toList.isPrefixOf path.toList then
    match path.toList.drop front.length with
    | '/' :: r => some (String.ofList r)
    | r => some (String.ofList r)
  else none

/-- Whether a path says nothing but to stay where one is. -/
def isHere (path : String) : Bool := components path == [.here]

/-- A path as it is written from a directory. Both are compared as texts; a bare name stays as it
is, and so does any path if the directory is the one that one is in. -/
def seenFrom (dir path : String) : String :=
  if isHere dir || !(withoutHere path).toList.contains '/' then withoutHere path
  else (behind? dir (withoutHere path)).getD (withoutHere path)

/-! ## Module specifiers -/

/-- The longest common beginning of two lists. -/
def commonLength {α : Type} [DecidableEq α] : List α → List α → Nat
  | a :: as, b :: bs => if a = b then commonLength as bs + 1 else 0
  | _, _ => 0

/-- The steps that lead from one directory to another place below the same top. -/
def stepsBetween (here target : List String) : List String :=
  let shared := commonLength here target
  let climbs := List.replicate (here.length - shared) ".."
  (if climbs.isEmpty then ["."] else climbs) ++ target.drop shared

/-- The specifier by which a file at `source` imports the module at `target`. -/
def relativeModule (source target : String) : String :=
  let here := ((directory? source).map fun cs => cs.filterMap Component.name?).getD []
  "/".intercalate (stepsBetween here (moduleNames target))

end ApiSurface.Path
