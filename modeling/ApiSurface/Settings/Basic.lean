import ApiSurface.Endpoint.Convention
import ApiSurface.Text.Quote

/-!
# Settings

* `QuoteStyle`, `Format`: the look of emitted source;
* `ClientSettings`, `DocumentSettings`, `EmitterSettings`: what to emit, and where to;
* `TaskSettings`, `Settings`: independent tasks below one root.
-/

namespace ApiSurface

open ApiSurface.Text

/-- The delimiters of string literals. -/
inductive QuoteStyle
  | double
  | single
deriving DecidableEq, Repr

namespace QuoteStyle

/-- The delimiter of a style. -/
def delimiter : QuoteStyle → Char
  | double => '"'
  | single => '\''

/-- The name of a style. -/
def text : QuoteStyle → String
  | double => "double"
  | single => "single"

/-- The style of a name. -/
def ofText? : String → Option QuoteStyle
  | "double" => some double
  | "single" => some single
  | _ => none

/-- A text as a string literal. -/
def quote (q : QuoteStyle) (s : String) : String := quoted q.delimiter s

end QuoteStyle

/-- Blanks for each level, and the delimiters of string literals. -/
structure Format where
  indent : Nat
  quote : QuoteStyle
deriving DecidableEq, Repr

/-- Two blanks, and double quotes. -/
def Format.standard : Format := ⟨2, .double⟩

/-- Settings of a client: its file, a file of its own for the types, the module that performs the
calls, the name of a trailing parameter for options, a comment on top, and the format. -/
structure ClientSettings where
  output : String
  typesOutput : Option String
  requestModule : Option String
  overridesParam : Option String
  header : Option String
  format : Format
deriving DecidableEq, Repr

/-- Settings of a document: its file, its title, version and description, and whether it goes to the
standard output instead of its file. -/
structure DocumentSettings where
  output : String
  title : String
  version : String
  description : Option String
  stdout : Bool
deriving DecidableEq, Repr

/-- What a task emits. -/
inductive EmitterSettings
  | client (settings : ClientSettings)
  | document (settings : DocumentSettings)
deriving DecidableEq, Repr

namespace EmitterSettings

/-- The word for what is emitted. -/
def kind : EmitterSettings → String
  | client _ => "client"
  | document _ => "openapi"

/-- Whether it goes to the standard output instead of files. -/
def streams : EmitterSettings → Bool
  | client _ => false
  | document settings => settings.stdout

end EmitterSettings

/-- A task: the patterns of the files it reads controllers and types from, and what it emits. -/
structure TaskSettings where
  name : String
  framework : Framework
  controllers : List String
  types : List String
  emitter : EmitterSettings
deriving DecidableEq, Repr

/-- The directory that patterns and outputs are relative to, and the tasks. -/
structure Settings where
  root : String
  tasks : List TaskSettings
deriving DecidableEq, Repr

end ApiSurface
