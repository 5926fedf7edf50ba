import ApiSurface.Command.Run

/-!
# The program

* `answerCall`: how the operating system answers the calls of an action;
* `main`: run the command of the arguments, print what it prints, and exit with its code.
-/

namespace ApiSurface

/-- Why the operating system refuses. -/
def refusalOf : IO.Error → Refusal
  | .noFileOrDirectory .. => .missing
  | e => .other (toString e)

/-- The result of a step, or why it was refused. -/
def refusable {α : Type} (step : IO α) : IO (Except Refusal α) := do
  try return .ok (← step)
  catch e => return .error (refusalOf e)

/-- The names of the directories above a place and its own. -/
def locateOnDisk (path : String) : IO (List String) := do
  return Path.names (← IO.FS.realPath path).toString

/-- What is in a directory. -/
def listOnDisk (path : String) : IO (Except Refusal (List Listed)) :=
  refusable do
    let entries ← (← IO.FS.realPath path).readDir
    entries.toList.mapM fun e => return ⟨e.fileName, ← e.path.isDir⟩

/-- The path of a new file. -/
def Temporary.path (file : Temporary) : String := Path.join file.directory file.name

/-- Make a new file in a directory. -/
def createOnDisk (directory : String) : IO Temporary := do
  let file : Temporary := ⟨directory, ".tmp" ++ toString (← IO.monoNanosNow)⟩
  let _ ← IO.FS.Handle.mk file.path .writeNew
  return file

/-- How the operating system answers a call. -/
def answerCall : (c : Call) → IO c.Answer
  | .locate path => refusable (locateOnDisk path)
  | .list path => do
    let isDirectory ← refusable do return ← (← IO.FS.realPath path).isDir
    match isDirectory with
    | .ok true => listOnDisk path
    | .ok false => return .error .notDirectory
    | .error why => return .error why
  | .read path => refusable (IO.FS.readBinFile path)
  | .makeDirectories path => refusable (IO.FS.createDirAll path)
  | .createIn directory => refusable (createOnDisk directory)
  | .fill file contents => refusable (IO.FS.writeFile file.path contents)
  | .move file path => refusable (IO.FS.rename file.path path)
  | .discard file => refusable (IO.FS.removeFile file.path)
  | .overwrite path contents => refusable (IO.FS.writeBinFile path contents)

/-- The result of an action on the disk of the operating system. -/
def Action.perform {α : Type} : Action α → IO (Except Failure α)
  | .done r => return r
  | .call c next => do (next (← answerCall c)).perform

/-- A variable and its value. -/
def variableOf (s : String) : Option (String × String) :=
  match s.toList.dropWhile (· != '=') with
  | [] => none
  | _ :: r => some (String.ofList (s.toList.takeWhile (· != '=')), String.ofList r)

/-- The variables of the process. -/
def environment : IO (List (String × String)) := do
  match ← refusable (IO.FS.readBinFile "/proc/self/environ") with
  | .ok bytes => return (Text.splitOn '\x00' (Text.lossy bytes)).filterMap variableOf
  | .error _ => return []

/-- Print on the standard output and the standard error. -/
def Printed.print (p : Printed) : IO UInt32 := do
  IO.print p.out
  IO.eprint p.err
  return p.code.toUInt32

end ApiSurface

open ApiSurface in
/-- Run the command of the arguments. -/
def main (args : List String) : IO UInt32 := do
  let here := (← IO.currentDir).toString
  match runArguments ⟨here, ← environment⟩ args with
  | none =>
    IO.eprint usage
    return 2
  | some action =>
    match ← action.perform with
    | .ok p => p.print
    | .error e => (fatal "" e).print
