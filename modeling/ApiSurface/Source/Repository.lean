import ApiSurface.Source.Exceptions
import ApiSurface.Surroundings
import ApiSurface.Text.Utf8

/-!
# Repositories

What a walk leaves out because a repository does, or because its user never wants it in one.

* `isRepository`: whether a directory is the top of a repository;
* `repositoryExceptions`: what the repository itself excludes;
* `excludesFile?`: the file that is named in the settings of the user;
* `personalExceptions`: what the user excludes from every repository.
-/

namespace ApiSurface

/-! ## The excludes of a repository -/

/-- What makes a directory the top of a repository. -/
def repositoryMarks : List String := [".git", ".jj"]

/-- Whether a directory with these entries is the top of a repository. -/
def isRepository (entries : List Listed) : Bool :=
  entries.any fun e => repositoryMarks.contains e.name

/-- Where the common files of a repository are: in a directory, nowhere, or in an unreadable
place. -/
inductive CommonFiles
  | at (dir : String)
  | nowhere
  | unreadable

/-- The first line of bytes; an empty file has none. -/
def firstLine (bytes : ByteArray) : Except CommonFiles String :=
  if bytes.isEmpty then .error .nowhere
  else match linesOfBytes bytes with
    | some l :: _ => .ok l
    | _ => .error .unreadable

/-- What a file says in its first line in place of the common files. -/
def pointerMark : List Char := "gitdir: ".toList

/-- The directory that a file stands for, by its first line. -/
def pointedTo (bytes : ByteArray) : Except CommonFiles String := do
  let line ← firstLine bytes
  if pointerMark.isPrefixOf line.toList then
    return String.ofList (line.toList.drop pointerMark.length)
  else throw .nowhere

/-- The common files of a further working copy, by the first line of a file that names them. -/
def commonFilesOf (dir : String) (bytes : ByteArray) : CommonFiles :=
  match firstLine bytes with
  | .ok line => .at (if line.toList.head? = some '.' then Path.join dir line else line)
  | .error c => c

/-- The common files of a further working copy. -/
def commonFilesFrom (dir : String) : Action CommonFiles :=
  .call (.read (Path.join dir "commondir")) fun r =>
    match r with
    | .ok bytes => .pure (commonFilesOf dir bytes)
    | .error .isDirectory => .pure .unreadable
    | .error _ => .pure .nowhere

/-- The common files of the repository with this top. -/
def commonFiles (top : String) : Action CommonFiles :=
  .call (.read (Path.join top ".git")) fun r =>
    match r with
    | .error _ => .pure (.at (Path.join top ".git"))
    | .ok bytes =>
      match pointedTo bytes with
      | .ok dir => commonFilesFrom dir
      | .error c => .pure c

/-- What the repository with this top excludes. -/
def repositoryExceptions (top : String) : Action Exceptions := do
  match ← commonFiles top with
  | .at dir => exceptionsIn top (Path.join dir "info/exclude")
  | .nowhere => return .none top
  | .unreadable => return { Exceptions.none top with sound := false }

/-! ## The excludes of the user -/

/-- White space of ASCII. -/
def isSpaceByte (b : UInt8) : Bool := b == 32 || Text.inRange 9 13 b

/-- The bytes behind white space. -/
def skipSpace (bs : List UInt8) : List UInt8 := bs.dropWhile isSpaceByte

/-- Whether white space reaches the end of a line. -/
def reachesEnd (bs : List UInt8) : Bool :=
  (bs.takeWhile isSpaceByte).contains 10 || (skipSpace bs).isEmpty

/-- Whether a line ends here, up to white space and a quotation mark. -/
def endsHere (bs : List UInt8) : Bool :=
  reachesEnd bs ||
    match skipSpace bs with
    | 34 :: r => reachesEnd r
    | _ => false

/-- The shortest run of bytes without white space behind which a line ends. -/
def lastWord? : List UInt8 → Option (List UInt8)
  | [] => none
  | b :: r =>
    if isSpaceByte b then none
    else if endsHere r then some [b]
    else (lastWord? r).map (b :: ·)

/-- A value behind its equals sign, with or without quotation marks. -/
def assigned? (bs : List UInt8) : Option (List UInt8) :=
  match skipSpace bs with
  | 34 :: r => (lastWord? (skipSpace r)).or (lastWord? (34 :: r))
  | r => lastWord? r

/-- A byte in lower case. -/
def lowerByte (b : UInt8) : UInt8 := if Text.inRange 65 90 b then b + 32 else b

/-- The name of the setting for a file with excludes. -/
def excludesKey : List UInt8 := "excludesfile".toUTF8.data.toList

/-- The value of the setting for a file with excludes, if a line begins with it. -/
def excludesValue? (bs : List UInt8) : Option (List UInt8) :=
  let r := skipSpace bs
  if (r.take excludesKey.length).map lowerByte = excludesKey then
    match skipSpace (r.drop excludesKey.length) with
    | 61 :: v => assigned? v
    | _ => none
  else none

/-- Bytes from the beginning of each of their lines on. -/
def lineStarts : List UInt8 → List (List UInt8)
  | [] => []
  | b :: bs => if b = 10 then bs :: lineStarts bs else lineStarts bs

/-- The file with excludes that settings name. The sign for the directory of the user may stand
anywhere in it. -/
def excludesFile? (home : Option String) (settings : ByteArray) : Option String := do
  let bs := settings.data.toList
  let value ← (bs :: lineStarts bs).findSome? excludesValue?
  let path ← String.fromUTF8? ⟨value.toArray⟩
  return match home with
    | some home => String.ofList (Text.replaceChar '~' home.toList path.toList)
    | none => path

/-- The file with excludes that the settings in a file name. -/
def namedIn (home : Option String) (file : String) : Action (Option String) :=
  .call (.read file) fun r =>
    match r with
    | .ok bytes => .pure (excludesFile? home bytes)
    | .error _ => .pure none

/-- The directory with the settings of the user. -/
def Surroundings.personalDirectory? (s : Surroundings) : Option String :=
  (s.valueOf? "XDG_CONFIG_HOME").or (s.home?.map fun home => Path.join home ".config")

/-- Files with settings of the user, in the order in which they count. -/
def Surroundings.personalSettings (s : Surroundings) : List String :=
  (s.home?.map fun home => Path.join home ".gitconfig").toList ++
    (s.personalDirectory?.map fun dir => Path.join dir "git/config").toList

/-- The file with the excludes of the user. -/
def personalFile? (s : Surroundings) : Action (Option String) := do
  let named ← Action.forAll (namedIn s.home?) s.personalSettings
  return (named.findSome? id).or (s.personalDirectory?.map fun dir => Path.join dir "git/ignore")

/-- What the user excludes from every repository. -/
def personalExceptions (s : Surroundings) : Action Exceptions := do
  match ← personalFile? s with
  | some file => exceptionsIn s.here file
  | none => return .none s.here

end ApiSurface
