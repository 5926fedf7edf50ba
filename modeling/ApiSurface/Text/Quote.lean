/-!
# String literals

Text between delimiters, with a backslash before each backslash and each delimiter.

* `escape`, `quoted`: a text as a literal;
* `scan`: reads a literal from its opening delimiter on.
-/

namespace ApiSurface.Text

/-- A backslash goes before each backslash and each delimiter. -/
def escape (q : Char) : List Char → List Char
  | [] => []
  | c :: r => if c = '\\' ∨ c = q then '\\' :: c :: escape q r else c :: escape q r

/-- A text between delimiters. -/
def quoted (q : Char) (text : String) : String :=
  String.ofList (q :: (escape q text.toList ++ [q]))

/-- What a literal holds up to its first bare delimiter, and what follows that. -/
def scanBody (q : Char) : List Char → Option (List Char × List Char)
  | [] => none
  | [c] => if c = q then some ([], []) else none
  | c :: d :: r =>
    if c = q then some ([], d :: r)
    else if c = '\\' then (scanBody q r).map fun p => (d :: p.1, p.2)
    else (scanBody q (d :: r)).map fun p => (c :: p.1, p.2)

/-- Read a literal: what it holds, and what follows it. -/
def scan (q : Char) : List Char → Option (List Char × List Char)
  | [] => none
  | c :: r => if c = q then scanBody q r else none

end ApiSurface.Text
