import ApiSurface.Text.Blank

/-!
# Lines of source text

* `Line`, `render`: lines at a depth, and their text for a number of blanks a level;
* `deeper`, `nested`: lines one level deeper, between an opening and a closing line;
* `docLines`: a documentation comment.
-/

namespace ApiSurface.Client

open ApiSurface.Text

/-- A line of source text at a depth. -/
structure Line where
  depth : Nat
  text : String
deriving DecidableEq, Repr

/-- A line at the left margin. -/
def line (text : String) : Line := ⟨0, text⟩

/-- An empty line. -/
def emptyLine : Line := ⟨0, ""⟩

/-- Lines one level deeper. -/
def deeper (ls : List Line) : List Line := ls.map fun l => ⟨l.depth + 1, l.text⟩

/-- Lines between an opening and a closing line, one level deeper. -/
def nested (opening : String) (body : List Line) (closing : String) : List Line :=
  line opening :: deeper body ++ [line closing]

/-- Groups of lines with an empty line between each two. -/
def spaced : List (List Line) → List Line
  | [] => []
  | [g] => g
  | g :: gs => g ++ emptyLine :: spaced gs

/-- The text of a line; an empty line has no blanks. -/
def Line.render (indent : Nat) (l : Line) : String :=
  if l.text.isEmpty then "\n"
  else String.ofList (List.replicate (indent * l.depth) ' ') ++ l.text ++ "\n"

/-- The text of lines. -/
def render (indent : Nat) (ls : List Line) : String := String.join (ls.map (Line.render indent))

/-! ## Documentation comments -/

/-- A line inside a documentation comment. -/
def docLine (s : String) : Line :=
  let t := trimEnd s
  line (if t.isEmpty then " *" else " * " ++ t)

/-- A documentation comment: on one line if the text has no line break, nothing for a blank text. -/
def docLines (docs : Option String) : List Line :=
  match nonBlank? docs with
  | none => []
  | some text =>
    if text.toList.contains '\n' then
      line "/**" :: (lines text).map docLine ++ [line " */"]
    else [line ("/** " ++ text ++ " */")]

end ApiSurface.Client
