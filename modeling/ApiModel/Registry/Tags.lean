import ApiModel.Event
import ApiModel.Registry

/-!
Tags of the subtypes in tagged unions. A base with a discriminator gives each child that it knows a
tag, and every property of the child that the discriminator names carries it; the base imports its
children.
-/

namespace ApiModel

structure TagAssignment where
  schema : String
  property : String
  tag : String
deriving DecidableEq, Repr

/-- A tag of the child's own comes first, then the mapping, then the base's component. -/
def Discriminator.tagOf (d : Discriminator) (base child : Schema) : Option String :=
  child.tag <|> d.tagFor child.name <|>
    (base.composedFrom.find? (·.name == child.name)).bind (·.mappingTag)

namespace TagAssignment

def ofChild (d : Discriminator) (base child : Schema) : Option TagAssignment :=
  (d.tagOf base child).map fun tag => ⟨child.name, d.propertyName, tag⟩

def apply (a : TagAssignment) (s : Schema) : Schema :=
  s.mapMembers fun l => l.map fun p =>
    if p.isNamed a.property then { p with tag := some a.tag } else p

end TagAssignment

namespace Registry

variable (r : Registry)

def childSchemas (name : String) : List Schema := (r.children name).toList.filterMap r.find?

def base? (name : String) : Option (Schema × Discriminator) :=
  (r.find? name).bind fun s => s.discriminator.map fun d => (s, d)

def tagAssignments (name : String) : List TagAssignment :=
  match r.base? name with
  | none => []
  | some (base, d) => (r.childSchemas name).filterMap (TagAssignment.ofChild d base)

def applyTag (r : Registry) (a : TagAssignment) : Registry := r.update a.schema a.apply

/-- Lets the base called `name` import its children, as they are registered in `known`. -/
def importChildren (known : Registry) (r : Registry) (name : String) : Registry :=
  match known.base? name with
  | none => r
  | some _ =>
    let children := ((known.childSchemas name).map (·.name)).filter (· != name)
    r.update name fun s =>
      { s with view := { s.view with imports := s.view.imports.putAll children } }

/-- Assigns the tags of all bases in `order`, later ones over earlier ones. -/
def assignTags (c : Config) (order : List String) : Registry :=
  if c.profile.isTaggedUnion then
    order.foldl (importChildren r) ((order.flatMap r.tagAssignments).foldl applyTag r)
  else r

def childWarnings (name : String) : List Event :=
  match r.base? name with
  | none => []
  | some (base, d) =>
    (r.children name).toList.filterMap fun child =>
      match r.find? child with
      | none => some (.childUnknown name child)
      | some s => if (d.tagOf base s).isNone then some (.childWithoutTag name child) else none

def tagEvents (c : Config) (order : List String) : List Event :=
  if c.profile.isTaggedUnion then
    order.flatMap r.childWarnings ++
      (order.flatMap r.tagAssignments).map fun a => .tagAssigned a.schema a.tag
  else []

end Registry

end ApiModel
