import ApiSurface.Json.Decode

/-!
# Notes

What a run has to say about a surface it could only partly express. A note stops nothing.

* `NoteCode`, `Severity`, `Note`: the kinds of notes and their wording;
* `Note.text`, `Note.report`: one note, and all notes with a count of the warnings;
* `Noted`: a value together with the notes taken on the way to it.
-/

namespace ApiSurface

open ApiSurface.Json

/-- What a note is about. -/
inductive NoteCode
  | genericArguments
  | typeParameter
  | unresolvedReference
  | mixedEnum
  | duplicateDeclaration
  | inheritanceCycle
  | discardedBinding
  | unmatchedPlaceholder
  | unexpandableQuery
  | duplicateRoute
deriving DecidableEq, Repr

/-- How much a note weighs. -/
inductive Severity
  | info
  | warning
deriving DecidableEq, Repr

/-- The word for a severity. -/
def Severity.text : Severity → String
  | info => "info"
  | warning => "warning"

namespace NoteCode

/-- All codes. -/
def all : List NoteCode :=
  [genericArguments, typeParameter, unresolvedReference, mixedEnum, duplicateDeclaration,
    inheritanceCycle, discardedBinding, unmatchedPlaceholder, unexpandableQuery, duplicateRoute]

/-- The number of a code. -/
def text : NoteCode → String
  | genericArguments => "W001"
  | typeParameter => "I001"
  | unresolvedReference => "W002"
  | mixedEnum => "W003"
  | duplicateDeclaration => "W004"
  | inheritanceCycle => "W005"
  | discardedBinding => "W006"
  | unmatchedPlaceholder => "W007"
  | unexpandableQuery => "W008"
  | duplicateRoute => "W009"

/-- The name of a code. -/
def name : NoteCode → String
  | genericArguments => "GenericArguments"
  | typeParameter => "TypeParameter"
  | unresolvedReference => "UnresolvedReference"
  | mixedEnum => "MixedEnum"
  | duplicateDeclaration => "DuplicateDeclaration"
  | inheritanceCycle => "InheritanceCycle"
  | discardedBinding => "DiscardedBinding"
  | unmatchedPlaceholder => "UnmatchedPlaceholder"
  | unexpandableQuery => "UnexpandableQuery"
  | duplicateRoute => "DuplicateRoute"

/-- The code of a name. -/
def ofName? (s : String) : Option NoteCode := all.find? fun c => c.name = s

/-- Only type parameters are a mere remark. -/
def severity : NoteCode → Severity
  | typeParameter => .info
  | _ => .warning

end NoteCode

/-- One note: its subject, what it is about, its message and further lines. -/
structure Note where
  subject : String
  code : NoteCode
  message : String
  context : List String
deriving DecidableEq, Repr

namespace Note

/-- A reference that is not in the catalog. -/
def unresolved (subject target : String) : Note :=
  ⟨subject, .unresolvedReference, "reference '" ++ target ++ "' not found in type catalog", []⟩

/-- Type arguments that no schema can express. -/
def genericArguments (subject name : String) (count : Nat) : Note :=
  ⟨subject, .genericArguments, "generic reference '" ++ name ++ "' with " ++ toString count ++
    " type argument(s) emitted as an untyped object", []⟩

/-- A type parameter, which stands for any type. -/
def typeParameter (subject name : String) : Note :=
  ⟨subject, .typeParameter, "type parameter '" ++ name ++ "' treated as unconstrained", []⟩

/-- An enumeration with values of several primitive types. -/
def mixedEnum (subject : String) : Note :=
  ⟨subject, .mixedEnum, "enum mixes literal kinds, falling back to string", []⟩

/-- A name declared again in another place. -/
def duplicateDeclaration (name kept replaced : String) : Note :=
  ⟨name, .duplicateDeclaration, "'" ++ name ++
    "' is declared more than once; the later declaration wins",
    ["kept: " ++ kept, "replaced: " ++ replaced]⟩

/-- Supertypes that lead back to where they start. -/
def inheritanceCycle (members : List String) : Note :=
  ⟨", ".intercalate members, .inheritanceCycle, "supertype chain refers back to itself",
    ["members: " ++ " -> ".intercalate members]⟩

/-- Field bindings that a binding of the whole source replaces. -/
def discardedBinding (subject whole : String) (dropped : List String) : Note :=
  ⟨subject, .discardedBinding, "whole binding '" ++ whole ++ "' replaces earlier field bindings",
    ["discarded: " ++ ", ".intercalate dropped]⟩

/-- A placeholder that no path parameter binds. -/
def unmatchedPlaceholder (subject field template : String) : Note :=
  ⟨subject, .unmatchedPlaceholder, "placeholder ':" ++ field ++
    "' has no matching path parameter", ["url: " ++ template]⟩

/-- A query type that has no properties to expand. -/
def unexpandableQuery (subject type parameter : String) : Note :=
  ⟨subject, .unexpandableQuery, "query type '" ++ type ++ "' of '" ++ parameter ++
    "' has no properties to expand, emitted as one parameter", []⟩

/-- A route that two handlers claim. -/
def duplicateRoute (verb path replaced kept : String) : Note :=
  ⟨verb ++ " " ++ path, .duplicateRoute, "route declared more than once; the later handler wins",
    ["replaced: " ++ replaced, "kept: " ++ kept]⟩

/-- How much a note weighs. -/
def severity (n : Note) : Severity := n.code.severity

/-- Whether a note is a warning. -/
def isWarning (n : Note) : Bool := n.severity == .warning

/-- A note as text, its further lines indented below it. -/
def text (n : Note) : String :=
  "[" ++ n.code.text ++ "] " ++ n.severity.text ++ ": " ++ n.message ++ " (" ++ n.subject ++ ")" ++
    String.join (n.context.map fun c => "\n  - " ++ c)

/-- The number of warnings. -/
def warningCount (notes : List Note) : Nat := (notes.filter isWarning).length

/-- All notes as text, closed by the number of warnings; nothing if there are no notes. -/
def report (notes : List Note) : String :=
  String.join (notes.map fun n => n.text ++ "\n") ++
    (if notes.isEmpty then "" else "\n" ++ toString (warningCount notes) ++ " warning(s)\n")

/-! ## Notes as JSON -/

/-- A note as JSON. -/
def toJson (n : Note) : Json :=
  .object ([("subject", .text n.subject), ("code", .text n.code.name),
    ("message", .text n.message)] ++ textsIfAny "context" n.context)

/-- Notes as JSON. -/
def listToJson (notes : List Note) : Json := .object [("items", .list (notes.map toJson))]

/-- Read a note. -/
def ofJson? (v : Json) : Option Note :=
  match slots ["subject", "code", "message", "context"] v with
  | some [subject, code, message, context] => do
    return ⟨← required text? subject,
      ← required (fun v => (choiceName? false v).bind NoteCode.ofName?) code,
      ← required text? message, ← defaulted (listOf? text?) [] context⟩
  | _ => none

/-- Read notes. -/
def listOfJson? (v : Json) : Option (List Note) :=
  match slots ["items"] v with
  | some [items] => required (listOf? ofJson?) items
  | _ => none

end Note

/-! ## Taking notes -/

/-- A value and the notes taken on the way to it. -/
structure Noted (α : Type) where
  value : α
  notes : List Note

namespace Noted

/-- A value without notes. -/
def pure {α : Type} (value : α) : Noted α := ⟨value, []⟩

/-- Go on with a value, adding notes to those taken so far. -/
def bind {α β : Type} (m : Noted α) (f : α → Noted β) : Noted β :=
  ⟨(f m.value).value, m.notes ++ (f m.value).notes⟩

instance : Monad Noted where
  pure := Noted.pure
  bind := Noted.bind

/-- Take one note. -/
def note (n : Note) : Noted PUnit := ⟨⟨⟩, [n]⟩

/-- Take several notes. -/
def noteAll (ns : List Note) : Noted PUnit := ⟨⟨⟩, ns⟩

variable {α β : Type}

@[simp] theorem value_pure (a : α) : (Pure.pure a : Noted α).value = a := rfl

@[simp] theorem notes_pure (a : α) : (Pure.pure a : Noted α).notes = [] := rfl

@[simp] theorem value_bind (m : Noted α) (f : α → Noted β) :
    (m >>= f).value = (f m.value).value := rfl

@[simp] theorem notes_bind (m : Noted α) (f : α → Noted β) :
    (m >>= f).notes = m.notes ++ (f m.value).notes := rfl

end Noted

end ApiSurface
