import ApiSurface.Attempt
import ApiSurface.Endpoint.Request
import ApiSurface.Path
import ApiSurface.Route.Url

/-!
# Extraction of controllers

Decorated classes become controllers, their decorated methods requests.

* `Bindings`, `Bindings.add`: the bindings of a query or a body; the first binding of the whole
  source takes it over;
* `extractRequest`: the request of a method that has a verb;
* `extractController`, `extractControllers`: the controllers of classes and units.
-/

namespace ApiSurface

open ApiSurface.Route

/-! ## Bindings -/

/-- The bindings of one source so far. -/
structure Bindings where
  fields : List FieldBinding
  whole : Option BoundParameter
deriving Repr

namespace Bindings

/-- No bindings. -/
def none : Bindings := ⟨[], .none⟩

/-- Add a binding of a field or, without one, of the whole source. After a binding of the whole
source all others are ignored; it discards the bindings of fields before it, with a note. -/
def add (b : Bindings) (subject : String) (field : Option String) (p : BoundParameter) :
    Noted Bindings :=
  match b.whole, field with
  | some _, _ => pure b
  | .none, some property => pure ⟨b.fields ++ [⟨property, p⟩], .none⟩
  | .none, .none =>
    if b.fields.isEmpty then pure ⟨[], some p⟩
    else ⟨⟨[], some p⟩,
      [Note.discardedBinding subject p.name (b.fields.map (·.parameter.name))]⟩

/-- The payload that the bindings make up. -/
def payload? (b : Bindings) : Option Payload :=
  match b.whole with
  | some p => some (.whole p)
  | .none => if b.fields.isEmpty then .none else some (.fields b.fields)

end Bindings

/-- The bindings of a handler so far. -/
structure HandlerBindings where
  params : List FieldBinding
  query : Bindings
  data : Bindings

/-- The place and the field that the first binding decorator of a parameter names. -/
def bindingOf? (conv : Convention) (p : Parameter) : Option (BindingSource × Option String) :=
  p.decorators.findSome? fun a =>
    (conv.binding? a.name).map fun source => (source, a.first?.bind Argument.string?)

/-- Bind one parameter of a handler; one without a binding decorator stays out. -/
def bindParameter (conv : Convention) (controller method : String) (b : HandlerBindings)
    (p : Parameter) : Attempt HandlerBindings :=
  let bound : BoundParameter := ⟨p.name, p.type, p.optional⟩
  let subject := controller ++ "." ++ method
  match bindingOf? conv p with
  | none => pure b
  | some (.path, some property) => pure { b with params := b.params ++ [⟨property, bound⟩] }
  | some (.path, none) => .fail (.missingPathField controller method p.name)
  | some (.query, field) => do
    let query ← Attempt.ofNoted (b.query.add subject field bound)
    return { b with query := query }
  | some (.body, field) => do
    let data ← Attempt.ofNoted (b.data.add subject field bound)
    return { b with data := data }

/-- Bind the parameters of a handler in order. -/
def bindParameters (conv : Convention) (controller method : String) :
    HandlerBindings → List Parameter → Attempt HandlerBindings
  | b, [] => pure b
  | b, p :: ps => do
    let b ← bindParameter conv controller method b p
    bindParameters conv controller method b ps

/-! ## Requests -/

/-- The first decorator of a method that stands for a verb. -/
def verbOf? (conv : Convention) (m : Method) : Option (Decorator × Verb) :=
  m.decorators.findSome? fun a => (conv.verb? a.name).map fun verb => (a, verb)

/-- The type a handler answers with: what a promise holds, nothing if none is declared. -/
def answerType (m : Method) : TypeExpr := (m.returnType.map TypeExpr.unwrapPromise).getD .void

/-- The request of a method; a method without a verb is no handler. -/
def extractRequest (conv : Convention) (controller baseUrl : String) (m : Method) :
    Attempt (Option Request) :=
  match verbOf? conv m with
  | none => pure none
  | some (decorator, verb) => do
    let fragment ← Attempt.ofExcept
      (routeFragment decorator.first? (controller ++ "." ++ m.name) false)
    let b ← bindParameters conv controller m.name ⟨[], .none, .none⟩ m.parameters
    return some
      { name := m.name
        docs := m.docs
        template := joinUrl baseUrl fragment
        verb := verb
        params := b.params
        query := b.query.payload?
        data := b.data.payload?
        returnType := answerType m }

/-- The requests of methods in order. -/
def extractRequests (conv : Convention) (controller baseUrl : String) :
    List Method → Attempt (List Request)
  | [] => pure []
  | m :: ms => do
    let r ← extractRequest conv controller baseUrl m
    let rs ← extractRequests conv controller baseUrl ms
    return r.toList ++ rs

/-! ## Controllers -/

/-- The name of the controllers in a file: its base name up to the first dot. -/
def controllerName (path : String) : String :=
  let file := (Path.fileName? path).getD path
  String.ofList (file.toList.takeWhile (· != '.'))

/-- The controller of a class; a class without the decorator is none. -/
def extractController (conv : Convention) (path : String) (c : ClassDecl) :
    Attempt (Option Controller) :=
  match c.decorators.find? fun a => a.name = conv.controller with
  | none => pure none
  | some decorator => do
    let baseUrl ← Attempt.ofExcept (routeFragment decorator.first? c.name true)
    let requests ← extractRequests conv (controllerName path) baseUrl c.methods
    return some ⟨controllerName path, path, baseUrl, c.docs, requests⟩

/-- The controllers of classes, each with the file it stands in, in order. -/
def extractClasses (conv : Convention) : List (String × ClassDecl) → Attempt (List Controller)
  | [] => pure []
  | (path, c) :: rest => do
    let controller ← extractController conv path c
    let controllers ← extractClasses conv rest
    return controller.toList ++ controllers

/-- The classes of source units, each with its file. -/
def classesOf (units : List SourceUnit) : List (String × ClassDecl) :=
  units.flatMap fun u => u.classes.map fun c => (u.path, c)

/-- The controllers of source units, in order. -/
def extractControllers (conv : Convention) (units : List SourceUnit) : Attempt (List Controller) :=
  extractClasses conv (classesOf units)

end ApiSurface
