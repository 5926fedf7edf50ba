import ApiSurface.Client.Import
import ApiSurface.Client.Layout
import ApiSurface.Endpoint.Request
import ApiSurface.Note
import ApiSurface.Route.Template

/-!
# Request functions

One function for each request, grouped into namespaces.

* `CallTarget`: what performs the call;
* `urlExpression`: the url of a request as a literal, with path parameters put in;
* `functionLines`: the function of a request;
* `namespaceName`, `groupByNamespace`, `namespaceLines`: the namespaces.
-/

namespace ApiSurface.Client

open ApiSurface.Route ApiSurface.Text

/-! ## Calls -/

/-- The import that performs calls, the function to call, and the type of its options. -/
structure CallTarget where
  imported : Import
  callee : String
  overridesType : String

/-- The default export of a module of the user's. -/
def CallTarget.ofModule (moduleName : String) : CallTarget :=
  ⟨⟨some "request", [], moduleName⟩, "request", "Partial<Parameters<typeof request>[0]>"⟩

/-- The request function of the standard library for calls. -/
def CallTarget.axios : CallTarget :=
  ⟨⟨some "axios", ["AxiosRequestConfig"], "axios"⟩, "axios.request", "AxiosRequestConfig"⟩

/-- What performs the calls of a client. -/
def callTarget (s : ClientSettings) : CallTarget :=
  match s.requestModule with
  | some moduleName => .ofModule moduleName
  | none => .axios

/-! ## Expressions -/

/-- A character between backticks: a backslash goes before a backtick. -/
def tick (c : Char) : List Char := if c = '`' then ['\\', '`'] else [c]

/-- A text between backticks. -/
def escapeTicks (cs : List Char) : List Char := cs.flatMap tick

/-- A url template with its backticks escaped. -/
def tickedTemplate (template : String) : String := String.ofList (escapeTicks template.toList)

/-- A piece of a url template between backticks: a bound field becomes its parameter. -/
def templatePiece (params : List FieldBinding) : Piece → List Char
  | .literal c => [c]
  | .field name =>
    match params.find? fun p => p.property = String.ofList name with
    | some p => '$' :: '\x7b' :: (p.parameter.name.toList ++ ['\x7d'])
    | none => ':' :: name

/-- The template literal of a url: backticks are escaped before parameters are put in. -/
def templateLiteral (params : List FieldBinding) (template : String) : String :=
  String.ofList
    ('`' :: ((pieces (tickedTemplate template)).flatMap (templatePiece params) ++ ['`']))

/-- The url of a request: a string literal, or a template literal if the path has parameters. -/
def urlExpression (q : QuoteStyle) (r : Request) : String :=
  if r.params.isEmpty then q.quote r.template else templateLiteral r.params r.template

/-- The placeholders of a template that no parameter binds. -/
def unboundFields (params : List FieldBinding) (template : String) : List String :=
  (fields (tickedTemplate template)).filter fun f => !params.any fun p => p.property = f

/-- The notes on the url of a request. -/
def urlNotes (controller : String) (r : Request) : List Note :=
  if r.params.isEmpty then []
  else (unboundFields r.params r.template).map fun f =>
    Note.unmatchedPlaceholder (controller ++ "." ++ r.name) f r.template

/-- A property key, quoted unless it is an identifier. -/
def propertyKey (q : QuoteStyle) (name : String) : String :=
  if isIdentifier name then name else q.quote name

/-- A payload as an expression. -/
def payloadExpression (q : QuoteStyle) : Payload → String
  | .whole p => p.name
  | .fields bindings =>
    "\x7b " ++ ", ".intercalate (bindings.map fun b =>
      propertyKey q b.property ++ ": " ++ b.parameter.name) ++ " \x7d"

/-! ## Functions -/

/-- A parameter in a signature. -/
def parameterText (p : BoundParameter) : String :=
  p.name ++ optionalMark p.optional ++ ": " ++ p.type.text

/-- The parameters of the function of a request. -/
def signature (s : ClientSettings) (target : CallTarget) (r : Request) : String :=
  ", ".intercalate (r.parameters.map parameterText ++
    (s.overridesParam.map fun o => o ++ "?: " ++ target.overridesType).toList)

/-- The options that the function of a request passes on. -/
def optionLines (s : ClientSettings) (r : Request) : List Line :=
  [line ("method: " ++ s.format.quote.quote r.verb.lower ++ ","),
    line ("url: " ++ urlExpression s.format.quote r ++ ",")] ++
  (r.query.map fun p => line ("params: " ++ payloadExpression s.format.quote p ++ ",")).toList ++
  (r.data.map fun p => line ("data: " ++ payloadExpression s.format.quote p ++ ",")).toList ++
  (s.overridesParam.map fun o => line ("..." ++ o ++ ",")).toList

/-- The function of a request. -/
def functionLines (s : ClientSettings) (target : CallTarget) (r : Request) : List Line :=
  docLines r.docs ++
    nested ("export function " ++ r.name ++ "(" ++ signature s target r ++ "): Promise<" ++
        r.returnType.text ++ "> \x7b")
      (nested ("return " ++ target.callee ++ "(\x7b") (optionLines s r) "\x7d);")
      "\x7d"

/-! ## Namespaces -/

/-- A character of a namespace: letters in upper case, digits, `_` and `$`; others become `_`. -/
def namespaceChar (c : Char) : Char := if isIdentPart c then c.toUpper else '_'

/-- The namespace of a controller. -/
def namespaceName (controller : String) : String :=
  let cs := controller.toList.map namespaceChar
  String.ofList (match cs with
    | [] => ['_']
    | c :: r => if c.isDigit then '_' :: c :: r else c :: r)

/-- Add a controller to the group of its namespace, or start a new group. -/
def joinGroup (c : Controller) : List (String × List Controller) → List (String × List Controller)
  | [] => [(namespaceName c.name, [c])]
  | (name, members) :: groups =>
    if name = namespaceName c.name then (name, members ++ [c]) :: groups
    else (name, members) :: joinGroup c groups

/-- Controllers by namespace, in the order of first appearance. -/
def groupByNamespace (controllers : List Controller) : List (String × List Controller) :=
  controllers.foldl (fun groups c => joinGroup c groups) []

/-- A namespace with the functions of its controllers. -/
def namespaceLines (s : ClientSettings) (target : CallTarget) (group : String × List Controller) :
    List Line :=
  nested ("export namespace " ++ group.1 ++ " \x7b")
    (spaced ((group.2.flatMap (·.requests)).map (functionLines s target))) "\x7d"

/-- All namespaces of a client. -/
def namespaces (s : ClientSettings) (target : CallTarget) (controllers : List Controller) :
    List Line :=
  spaced ((groupByNamespace controllers).map (namespaceLines s target))

/-- The notes on the functions of a client, in the order of the functions. -/
def namespaceNotes (controllers : List Controller) : List Note :=
  (groupByNamespace controllers).flatMap fun group =>
    group.2.flatMap fun c => c.requests.flatMap (urlNotes c.name)

end ApiSurface.Client
