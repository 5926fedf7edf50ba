import ApiSurface.Failure
import ApiSurface.Source.SourceUnit
import ApiSurface.Text.Blank

/-!
# Urls of routes

* `segments`, `joinUrl`: the pieces of a url and a url of the pieces of two;
* `routeFragment`: the url fragment that a decorator argument stands for.
-/

namespace ApiSurface.Route

open ApiSurface.Text

/-- The pieces of a url that are not empty. -/
def segments (url : String) : List String := (splitOn '/' url).filter fun s => s ≠ ""

/-- The segments of two urls, each after a separator; the root if there are none. -/
def joinUrl (base fragment : String) : String :=
  "/" ++ "/".intercalate (segments base ++ segments fragment)

/-- The texts of arguments, or the first argument that is not a text. -/
def textsOf : List Argument → Except Argument (List String)
  | [] => .ok []
  | .string s :: rest => (textsOf rest).map (s :: ·)
  | a :: _ => .error a

mutual

/-- The fragment of a text, of a list of texts, of nothing or, where allowed, of the field `path` of
an object; else the argument that has none. -/
def fragmentOf (objectAllowed : Bool) : Argument → Except Argument String
  | .string s => .ok s
  | .list items => (textsOf items).map fun parts => "/".intercalate parts
  | .object fields =>
    if objectAllowed then fragmentOfPath objectAllowed fields else .error (.object fields)
  | a => .error a

/-- The fragment of the field `path` among fields, empty if there is none. -/
def fragmentOfPath (objectAllowed : Bool) : List (String × Argument) → Except Argument String
  | [] => .ok ""
  | (name, a) :: fields =>
    if name = "path" then fragmentOf objectAllowed a else fragmentOfPath objectAllowed fields

end

/-- The fragment of a route decorator's argument, empty if there is none. -/
def routeFragment (argument : Option Argument) (context : String) (objectAllowed : Bool) :
    Except Failure String :=
  match argument with
  | none => .ok ""
  | some a =>
    match fragmentOf objectAllowed a with
    | .ok fragment => .ok fragment
    | .error found => .error (.unknownArgument context found.describe objectAllowed)

end ApiSurface.Route
