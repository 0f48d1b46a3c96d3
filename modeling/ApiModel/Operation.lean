import ApiModel.Event
import ApiModel.PathTemplate
import ApiModel.Response

/-!
Operations: their authored parts (method, path, parameters, responses) and, apart from these, the
view that normalization derives. `normalize` looks at the authored parts alone.
-/

namespace ApiModel

inductive Method
  | get
  | post
  | put
  | patch
  | delete
  | head
  | options
deriving DecidableEq, Repr, Inhabited

def Method.text : Method → String
  | get => "GET"
  | post => "POST"
  | put => "PUT"
  | patch => "PATCH"
  | delete => "DELETE"
  | head => "HEAD"
  | options => "OPTIONS"

structure ParameterGroups where
  all : List Parameter := []
  path : List Parameter := []
  query : List Parameter := []
  header : List Parameter := []
  cookie : List Parameter := []
  body : List Parameter := []
  form : List Parameter := []
  required : List Parameter := []
  optional : List Parameter := []
deriving DecidableEq, Repr, Inhabited

def ParameterGroups.ofList (l : List Parameter) : ParameterGroups where
  all := Parameter.sort l
  path := located .path
  query := located .query
  header := located .header
  cookie := located .cookie
  body := located .body
  form := located .form
  required := Parameter.sort (l.filter (·.isRequired))
  optional := Parameter.sort (l.filter (!·.isRequired))
where
  located (location : Location) : List Parameter :=
    Parameter.sort (l.filter (·.location == location))

structure Operation.View where
  groups : ParameterGroups := {}
  renderedPath : String := ""
  consumedParameters : List String := []
  success : Success := {}
deriving DecidableEq, Repr, Inhabited

structure Operation where
  operationId : String := ""
  method : Method := .get
  path : String := ""
  parameters : List Parameter := []
  responses : List Response := []
  view : Operation.View := {}
deriving DecidableEq, Repr, Inhabited

namespace Operation

def plain (operationId : String) (method : Method) (path : String) : Operation :=
  { operationId, method, path }

def hasFormParameters (op : Operation) : Bool := op.parameters.any (·.location == .form)

def staticSegments (path : List Char) : List (List Char) :=
  (splitAtEach (· == '/') path).filter fun s => !s.isEmpty && s.head? != some '{'

/-- An identifier made of the method and the static segments of the path. -/
def derivedId (method : Method) (path : String) : String :=
  let base := ['_'].intercalate (staticSegments path.toList)
  String.ofList (Name.identifier (method.text.toList.map Char.toLower ++ '_' :: base))

def finalId (op : Operation) : String :=
  if op.operationId.isEmpty then derivedId op.method op.path else op.operationId

def identified (op : Operation) : List Parameter := op.parameters.map Parameter.identified

def expansion (c : Config) (op : Operation) : Except Failure PathTemplate.Expansion :=
  PathTemplate.expand c.pathDialect op.identified op.path

def normalize (c : Config) (op : Operation) : Except Failure Operation := do
  let expanded ← op.expansion c
  return {
    operationId := op.finalId
    method := op.method
    path := op.path
    parameters := op.identified
    responses := op.responses
    view := {
      groups := .ofList op.identified
      renderedPath := expanded.rendered
      consumedParameters := expanded.consumed
      success := Response.classify op.responses } }

def events (c : Config) (op : Operation) : List Event :=
  (if op.operationId.isEmpty then
    [.operationIdDerived op.method.text op.path op.finalId] else []) ++
  PathTemplate.events c.pathDialect op.identified op.path ++
  if (op.expansion c).isOk then Response.events op.responses else []

/-- Normalizes operations in order; the first that fails or repeats an id is the failure. -/
def normalizeAll (c : Config) (ops : List Operation) : Except Failure (List Operation) := go [] ops
where
  go (ids : List String) : List Operation → Except Failure (List Operation)
    | [] => return []
    | op :: ops => do
      let op ← op.normalize c
      if ids.contains op.operationId then throw (.duplicateOperation op.operationId)
      return op :: (← go (op.operationId :: ids) ops)

/-- The events of `normalizeAll`, those of the operation that fails included. -/
def eventsOfAll (c : Config) (ops : List Operation) : List Event := go [] ops
where
  go (ids : List String) : List Operation → List Event
    | [] => []
    | op :: ops =>
      op.events c ++
        match op.normalize c with
        | .error _ => []
        | .ok op => if ids.contains op.operationId then [] else go (op.operationId :: ids) ops

end Operation

end ApiModel
