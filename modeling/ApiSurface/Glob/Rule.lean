import ApiSurface.Glob.Basic

/-!
# Rules for paths

A list of lines, each with a glob; of the rules that match a path the last one decides.

* `Rule`: a glob, whether it is negated, and whether only directories match;
* `Rule.ofLine`: the rule of a line, if the line has one;
* `Rule.last?`: the rule that decides about a path;
* `Selection`: what patterns include and exclude.
-/

namespace ApiSurface.Glob

/-- A glob of a list. -/
structure Rule where
  tokens : List Token
  negated : Bool
  onlyDirectories : Bool

/-- What a line holds. -/
inductive Line
  | nothing
  | malformed
  | rule (r : Rule)

/-- The line without blanks at its end, unless an escaped one is the last. -/
def trimLine (cs : List Char) : List Char :=
  if ['\\', ' '].isSuffixOf cs then cs else Text.dropEnd cs

/-- A line's marks: whether it is negated, whether it is bound to the top, and what is left. A
backslash takes the meaning from a mark. -/
def marks : List Char → Bool × Bool × List Char
  | '\\' :: '!' :: r => (false, false, '!' :: r)
  | '\\' :: '#' :: r => (false, false, '#' :: r)
  | '!' :: '/' :: r => (true, true, r)
  | '!' :: r => (true, false, r)
  | '/' :: r => (false, true, r)
  | r => (false, false, r)

/-- A slash at the end, with the backslash in front of it, stands for directories alone. -/
def splitDirectoryMark (cs : List Char) : Bool × List Char :=
  match cs.reverse with
  | '/' :: '\\' :: r => (true, r.reverse)
  | '/' :: r => (true, r.reverse)
  | _ => (false, cs)

/-- Two stars and a slash. -/
def deepPart : List Char := ['*', '*', '/']

/-- A pattern without a slash matches at any depth. -/
def anywhere (anchored : Bool) (cs : List Char) : List Char :=
  if anchored || cs.contains '/' || cs == ['*', '*'] then cs else deepPart ++ cs

/-- A pattern for all that is in a directory does not match the directory. -/
def insideOnly (cs : List Char) : List Char :=
  if ['/', '*', '*'].isSuffixOf cs then cs ++ ['/', '*'] else cs

/-- The rule of a line. -/
def Rule.ofLine (looseAllowed : Bool) (line : String) : Line :=
  if line.toList.head? = some '#' then .nothing
  else
    let cs := trimLine line.toList
    if cs.isEmpty then .nothing
    else
      let (negated, anchored, r) := marks cs
      let (onlyDirectories, r) := splitDirectoryMark r
      match parse? looseAllowed (insideOnly (anywhere anchored r)) with
      | some ts => .rule ⟨ts, negated, onlyDirectories⟩
      | none => .malformed

/-- Whether a rule matches a path. -/
def Rule.accepts (r : Rule) (isDirectory : Bool) (path : String) : Bool :=
  (isDirectory || !r.onlyDirectories) && Glob.accepts r.tokens path

/-- The last rule that matches a path. -/
def Rule.last? (rules : List Rule) (isDirectory : Bool) (path : String) : Option Rule :=
  rules.reverse.find? fun r => r.accepts isDirectory path

/-- The rule that a line holds; one that is malformed has none. -/
def Line.rule? : Line → Option Rule
  | rule r => some r
  | _ => none

/-- Whether a line should hold a rule but does not. -/
def Line.isMalformed : Line → Bool
  | malformed => true
  | _ => false

/-! ## Selections -/

/-- What is said about a path: to take it, to leave it out, or nothing. -/
inductive Verdict
  | take
  | leave
  | silent
deriving DecidableEq, Repr

/-- A verdict, or another one if nothing is said. -/
def Verdict.orElse : Verdict → Verdict → Verdict
  | silent, v => v
  | v, _ => v

/-- The patterns that select files: those that are negated exclude. -/
abbrev Selection : Type := List Rule

/-- The selection of patterns, or the first pattern that is malformed. -/
def Selection.ofPatterns : List String → Except String Selection
  | [] => .ok []
  | p :: ps =>
    match Rule.ofLine false p with
    | .malformed => .error p
    | .nothing => ofPatterns ps
    | .rule r => (ofPatterns ps).map (r :: ·)

/-- What a selection says about a path. A file that no pattern matches is left out as soon as there
is a pattern that includes. -/
def Selection.verdict (rules : Selection) (isDirectory : Bool) (path : String) : Verdict :=
  match Rule.last? rules isDirectory path with
  | some r => if r.negated then .leave else .take
  | none => if !isDirectory && rules.any (fun r => !r.negated) then .leave else .silent

/-- What a list of exceptions says about a path: what it matches is left out, unless negated. -/
def exceptionVerdict (rules : List Rule) (isDirectory : Bool) (path : String) : Verdict :=
  match Rule.last? rules isDirectory path with
  | some r => if r.negated then .take else .leave
  | none => .silent

end ApiSurface.Glob
