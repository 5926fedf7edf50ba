/-!
# Decorator conventions

* `Verb`, `BindingSource`: the methods of requests and the places that parameters travel in;
* `Convention`: the decorator names that stand for them;
* `Framework`: the conventions there are.
-/

namespace ApiSurface

/-- The method of a request. -/
inductive Verb
  | get
  | post
  | put
  | patch
  | delete
deriving DecidableEq, Repr

namespace Verb

/-- A method in lower case. -/
def lower : Verb → String
  | get => "get"
  | post => "post"
  | put => "put"
  | patch => "patch"
  | delete => "delete"

/-- A method in upper case. -/
def upper : Verb → String
  | get => "GET"
  | post => "POST"
  | put => "PUT"
  | patch => "PATCH"
  | delete => "DELETE"

end Verb

/-- Where a parameter travels in a request. -/
inductive BindingSource
  | path
  | query
  | body
deriving DecidableEq, Repr

/-- The word for a place. -/
def BindingSource.text : BindingSource → String
  | path => "path"
  | query => "query"
  | body => "body"

/-- The names of the decorators that mark an API. -/
structure Convention where
  controller : String
  verbs : List (String × Verb)
  bindings : List (String × BindingSource)

namespace Convention

/-- The names of one widespread style. -/
def nest : Convention where
  controller := "Controller"
  verbs := [("Get", .get), ("Post", .post), ("Put", .put), ("Patch", .patch), ("Delete", .delete)]
  bindings := [("Param", .path), ("Query", .query), ("Body", .body)]

/-- The method that a decorator stands for. -/
def verb? (c : Convention) (decorator : String) : Option Verb := c.verbs.lookup decorator

/-- The place that a decorator stands for. -/
def binding? (c : Convention) (decorator : String) : Option BindingSource :=
  c.bindings.lookup decorator

end Convention

/-- The styles of decorator that are known. -/
inductive Framework
  | nest
deriving DecidableEq, Repr

namespace Framework

/-- The name of a style. -/
def text : Framework → String
  | nest => "nest"

/-- The convention of a style. -/
def convention : Framework → Convention
  | nest => Convention.nest

end Framework

end ApiSurface
