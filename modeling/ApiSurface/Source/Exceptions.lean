import ApiSurface.Disk.Action
import ApiSurface.Glob.Rule
import ApiSurface.Path

/-!
# Exceptions

Ignore files name what a walk leaves out, or takes in spite of another ignore file.

* `Exceptions`: the rules of an ignore file, and the directory that they are relative to;
* `exceptionsIn`: the exceptions in a file; there are none without it;
* `Exceptions.verdict`, `firstVerdict`: what one file says about a path, and the first of several
  that says something.
-/

namespace ApiSurface

open ApiSurface.Glob (Line Rule Verdict)

/-- The rules of an ignore file, the path of the directory that they are relative to, and whether
every line that could be read was understood. -/
structure Exceptions where
  dir : String
  rules : List Rule
  sound : Bool

/-! ## Lines -/

/-- A line without the carriage return at its end. -/
def withoutReturn (l : List UInt8) : List UInt8 := if l.getLast? = some 13 then l.dropLast else l

/-- The lines of bytes; one that is no text has none. -/
def linesOfBytes (bytes : ByteArray) : List (Option String) :=
  (Text.splitBytes 10 bytes.data.toList).map fun l =>
    String.fromUTF8? ⟨(withoutReturn l).toArray⟩

/-- The lines of bytes as far as they are text; marks for the order of bytes do not belong to the
first one. -/
def readableLines (bytes : ByteArray) : List String :=
  match (linesOfBytes bytes).takeWhile Option.isSome |>.filterMap id with
  | [] => []
  | l :: ls => String.ofList (l.toList.dropWhile (· == '\ufeff')) :: ls

/-! ## Files -/

/-- No exceptions. -/
def Exceptions.none (dir : String) : Exceptions := ⟨Path.withoutHere dir, [], true⟩

/-- The exceptions in the bytes of a file. -/
def Exceptions.ofBytes (dir : String) (bytes : ByteArray) : Exceptions :=
  let lines := (readableLines bytes).map (Rule.ofLine true)
  ⟨Path.withoutHere dir, lines.filterMap Line.rule?, !lines.any Line.isMalformed⟩

/-- The exceptions in a file that are relative to a directory. -/
def exceptionsIn (dir file : String) : Action Exceptions :=
  .call (.read file) fun r =>
    match r with
    | .ok bytes => .pure (.ofBytes dir bytes)
    | .error _ => .pure (.none dir)

/-- The name of ignore files. -/
def ignoreFile : String := ".ignore"

/-- The exceptions in the ignore file of a directory. -/
def exceptionsAt (dir : String) : Action Exceptions := exceptionsIn dir (Path.join dir ignoreFile)

/-! ## Verdicts -/

/-- What exceptions say about a path. -/
def Exceptions.verdict (e : Exceptions) (isDirectory : Bool) (path : String) : Verdict :=
  Glob.exceptionVerdict e.rules isDirectory (Path.seenFrom e.dir path)

/-- What the first exceptions that say anything say about a path. -/
def firstVerdict (isDirectory : Bool) (path : String) : List Exceptions → Verdict
  | [] => .silent
  | e :: es => (e.verdict isDirectory path).orElse (firstVerdict isDirectory path es)

end ApiSurface
