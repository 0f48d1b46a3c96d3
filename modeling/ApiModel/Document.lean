import ApiModel.Operation
import ApiModel.Registry.Normalization

/-!
Documents, as they describe an API, and the models that normalization makes of them. A model can
serve as a document again.
-/

namespace ApiModel

structure Document where
  schemas : List Schema := []
  operations : List Operation := []
deriving DecidableEq, Inhabited

structure Model where
  schemas : List Schema := []
  operations : List Operation := []
  hasEncodableParameters : Bool := false
  hasFormParameters : Bool := false
deriving DecidableEq, Inhabited

namespace Model

def toDocument (m : Model) : Document := { schemas := m.schemas, operations := m.operations }

def schema? (m : Model) (name : String) : Option Schema := m.schemas.find? (·.name == name)

def operation? (m : Model) (operationId : String) : Option Operation :=
  m.operations.find? (·.operationId == operationId)

def ofParts (schemas : List Schema) (operations : List Operation) : Model where
  schemas
  operations
  hasEncodableParameters := operations.any (!·.view.consumedParameters.isEmpty)
  hasFormParameters := operations.any (·.hasFormParameters)

end Model

namespace Document

variable (c : Config) (d : Document)

/-- Schemas come first: of several failures the first one in the document is told, except that
cycles are found after all schemas are in. -/
def normalize : Except Failure Model := do
  let registry ← Registry.ofSchemas d.schemas
  let registry ← registry.normalize c
  let operations ← Operation.normalizeAll c d.operations
  return .ofParts registry.toList operations

def stepEvents : List Event :=
  match Registry.ofSchemas d.schemas with
  | .error _ => []
  | .ok registry =>
    registry.events c ++
      match registry.normalize c with
      | .error _ => []
      | .ok _ => Operation.eventsOfAll c d.operations

def finishEvents : List Event :=
  match d.normalize c with
  | .error _ => []
  | .ok m => [.documentFinished m.schemas.length m.operations.length]

def events : List Event :=
  .documentStarted c.profile d.schemas.length d.operations.length ::
    (d.stepEvents c ++ d.finishEvents c)

end Document

end ApiModel
