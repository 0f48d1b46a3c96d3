import ApiModel.Failure
import ApiModel.Schema

/-!
Registries of schemas, in order of their names. A schema goes in once, and only if its properties
have distinct names.
-/

namespace ApiModel

def Schema.nameCollision? (s : Schema) : Option Failure := go [] s.properties
where
  go (before : List Property) : List Property → Option Failure
    | [] => none
    | p :: ps =>
      match before.find? (·.name == p.name) with
      | some q => some (.nameCollision s.name p.name q.wireName p.wireName)
      | none => go (p :: before) ps

abbrev Registry := Keyed Schema Schema.name

namespace Registry

def insert (r : Registry) (s : Schema) : Except Failure Registry :=
  match s.nameCollision? with
  | some failure => .error failure
  | none => if r.contains s.name then .error (.duplicateSchema s.name) else .ok (r.put s)

def ofSchemas (schemas : List Schema) : Except Failure Registry := schemas.foldlM insert ∅

def parent? (r : Registry) (s : Schema) : Option Schema := s.parent.bind r.find?

/-- Names of the declared children of `name` and of the schemas that have it as parent. -/
def children (r : Registry) (name : String) : NameSet :=
  let declared := ((r.find? name).map (·.children)).getD []
  let linked := (r.toList.filter (·.parent == some name)).map (·.name)
  .ofList (declared ++ linked)

end Registry

end ApiModel
