import ApiModel.Config
import ApiModel.Keyed
import ApiModel.Name
import ApiModel.Property

/-!
Schemas: named data shapes with their authored links to other schemas (a parent, children,
components, a discriminator) and, apart from these, the view that normalization derives. Links are
plain names, so one that nothing answers to is only a look-up without a result.
-/

namespace ApiModel

/-- Declared on the base of a hierarchy: the property that tells its subtypes apart, and which tag
stands for which schema. -/
structure Discriminator where
  propertyName : String := ""
  mapping : Keyed (String × String) Prod.fst := ∅
deriving DecidableEq, Inhabited

namespace Discriminator

/-- The greatest tag that is mapped to the schema. -/
def tagFor (d : Discriminator) (schema : String) : Option String :=
  ((d.mapping.toList.filter (·.2 == schema)).getLast?).map Prod.fst

end Discriminator

inductive Composition
  | oneOf
  | anyOf
  | allOf
deriving DecidableEq, Repr, Inhabited

structure Component where
  kind : Composition := .oneOf
  name : String := ""
  mappingTag : Option String := none
deriving DecidableEq, Repr, Inhabited

namespace Component

/-- The alternative that stands for the absence of a value. -/
def isNull (c : Component) : Bool := c.name == "Null"

def isAlternative (c : Component) : Bool := c.kind != .allOf

end Component

structure ModelImport where
  className : String
  fileName : String
deriving DecidableEq, Repr, Inhabited

structure Members where
  vars : List Property := []
  all : List Property := []
  required : List Property := []
  optional : List Property := []
  readOnly : List Property := []
  readWrite : List Property := []
  parent : List Property := []
deriving DecidableEq, Repr, Inhabited

namespace Members

def map (f : List Property → List Property) (m : Members) : Members where
  vars := f m.vars
  all := f m.all
  required := f m.required
  optional := f m.optional
  readOnly := f m.readOnly
  readWrite := f m.readWrite
  parent := f m.parent

def lists (m : Members) : List (List Property) :=
  [m.vars, m.all, m.required, m.optional, m.readOnly, m.readWrite, m.parent]

end Members

structure Schema.View where
  base : Option String := none
  members : Members := {}
  imports : NameSet := ∅
  modelImports : List ModelImport := []
deriving DecidableEq, Inhabited

structure Schema where
  name : String := ""
  properties : List Property := []
  parent : Option String := none
  discriminator : Option Discriminator := none
  children : List String := []
  composedFrom : List Component := []
  isMap : Bool := false
  isNullable : Bool := false
  /-- A tag of the schema's own, which no mapping overrides. -/
  tag : Option String := none
  view : Schema.View := {}
deriving DecidableEq, Inhabited

def Naming.stem : Naming → String → String
  | .camelCase, name => String.ofList (Name.camelCase name.toList)
  | .kebabCase, name => String.ofList (Name.kebabCase name.toList)

def Naming.fileName (n : Naming) (name : String) : String := "./" ++ n.stem name

namespace Schema

def named (name : String) : Schema := { name }

def withProperties (s : Schema) (properties : List Property) : Schema := { s with properties }

def withParent (s : Schema) (parent : String) : Schema := { s with parent := some parent }

/-- Of two pairs with one tag the later one counts. -/
def withDiscriminator (s : Schema) (propertyName : String) (mapping : List (String × String)) :
    Schema :=
  { s with discriminator := some { propertyName, mapping := Keyed.ofList mapping } }

def composedOf (s : Schema) (kind : Composition) (names : List String) : Schema :=
  { s with composedFrom := s.composedFrom ++ names.map fun name => { kind, name } }

def hasEnums (s : Schema) : Bool := s.properties.any (·.isEnum)

def discriminatorProperty (s : Schema) : Option String := s.discriminator.map (·.propertyName)

def discriminates (s : Schema) (p : Property) : Bool := s.discriminatorProperty.any p.isNamed

def mapMembers (f : List Property → List Property) (s : Schema) : Schema :=
  { s with view := { s.view with members := s.view.members.map f } }

def sortMembers (s : Schema) : Schema := s.mapMembers Property.sort

def assignModelImports (n : Naming) (s : Schema) : Schema :=
  { s with view := { s.view with modelImports := s.view.imports.toList.map fun name =>
      { className := name, fileName := n.fileName name } } }

end Schema

end ApiModel
