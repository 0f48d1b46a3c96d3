import ApiModel.Registry.SchemaView
import ApiModel.Registry.Tags

/-!
Normalization of a whole registry: every schema in dependency order, so that each finds the views
that it reads already complete; then the tags of tagged unions; then the files of the imports.
-/

namespace ApiModel.Registry

variable (c : Config)

def normalizeAt (r : Registry) (name : String) : Registry :=
  r.update name fun s => s.normalize c r

def normalizeEach (r : Registry) (order : List String) : Registry := order.foldl (normalizeAt c) r

def assignModelImports (n : Naming) (r : Registry) : Registry :=
  r.map (Schema.assignModelImports n) fun _ => rfl

/-- Fails on a cycle of dependencies only. -/
def normalize (r : Registry) : Except Failure Registry :=
  r.dependencyOrder.map fun order =>
    ((r.normalizeEach c order).assignTags c order).assignModelImports c.naming

def eventsOfEach (r : Registry) : List String → List Event
  | [] => []
  | name :: names =>
    ((r.find? name).map (·.events c r)).getD [] ++ eventsOfEach (r.normalizeAt c name) names

def events (r : Registry) : List Event :=
  match r.dependencyOrder with
  | .error _ => []
  | .ok order => r.eventsOfEach c order ++ (r.normalizeEach c order).tagEvents c order

end ApiModel.Registry
