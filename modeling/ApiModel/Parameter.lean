import ApiModel.Name

/-!
Parameters of operations. A list of them is sorted by data type and then, stably, by `rank`. A
placeholder of a path means the parameter that `bestMatch?` finds.
-/

namespace ApiModel

inductive Location
  | path
  | query
  | header
  | cookie
  | body
  | form
deriving DecidableEq, Repr

instance : Inhabited Location := ⟨.query⟩

structure Parameter where
  name : String := ""
  /-- The name in generated code; empty until one is given or derived. -/
  identifier : String := ""
  location : Location := .query
  dataType : String := ""
  dataFormat : Option String := none
  isRequired : Bool := false
  isNullable : Bool := false
  defaultValue : Option String := none
  style : Option String := none
  explode : Option Bool := none
deriving DecidableEq, Repr, Inhabited

namespace Parameter

/-- Parameters in the path are required. -/
def plain (name : String) (location : Location) (dataType : String) : Parameter :=
  { name, location, dataType, isRequired := location == .path }

def hasDefault (p : Parameter) : Bool := p.defaultValue.isSome

def derivedIdentifier (p : Parameter) : String :=
  if p.identifier.isEmpty then String.ofList (Name.identifier p.name.toList) else p.identifier

def identified (p : Parameter) : Parameter := { p with identifier := p.derivedIdentifier }

/-- Required parameters come first; within each half those without a default do. -/
def rank (p : Parameter) : Nat :=
  (if p.isRequired then 0 else 2) + (if p.hasDefault then 1 else 0)

def sort (l : List Parameter) : List Parameter :=
  (l.mergeSort fun p q => decide (p.dataType ≤ q.dataType)).mergeSort
    fun p q => decide (p.rank ≤ q.rank)

def isSimilar (p : Parameter) (placeholder : String) : Bool :=
  Name.snakeCase p.name.toList == Name.snakeCase placeholder.toList

/-- The place of the parameter that a placeholder means: one of the same name in the path, else any
of the same name, else any of a similar name. -/
def bestMatch? (l : List Parameter) (placeholder : String) : Option Nat :=
  l.findIdx? (fun p => p.location == .path && p.name == placeholder) <|>
  l.findIdx? (·.name == placeholder) <|>
  l.findIdx? (·.isSimilar placeholder)

def meant? (l : List Parameter) (placeholder : String) : Option Parameter :=
  (bestMatch? l placeholder).bind (l[·]?)

end Parameter

end ApiModel
