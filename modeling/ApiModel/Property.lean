import ApiModel.Event

/-!
Properties of schemas, and the operations on lists of them: keeping the first definition of each
name, and the order in which a list is shown. A list is sorted by name and then, stably, by `rank`,
so the name decides only between properties of one rank.
-/

namespace ApiModel

structure Property where
  /-- The name in generated code. -/
  name : String := ""
  /-- The name in transmitted data. -/
  wireName : String := ""
  dataType : String := ""
  complexType : Option String := none
  isEnum : Bool := false
  enumValues : List String := []
  isRequired : Bool := false
  isReadOnly : Bool := false
  isNullable : Bool := false
  defaultValue : Option String := none
  isInherited : Bool := false
  /-- The literal that tells this member of a tagged union from the others. -/
  tag : Option String := none
deriving DecidableEq, Repr, Inhabited

namespace Property

def plain (name wireName dataType : String) : Property := { name, wireName, dataType }

def required (p : Property) : Property := { p with isRequired := true }

def nullable (p : Property) : Property := { p with isNullable := true }

def readOnly (p : Property) : Property := { p with isReadOnly := true }

def withDefault (p : Property) (value : String) : Property := { p with defaultValue := some value }

def withEnum (p : Property) (values : List String) : Property :=
  { p with isEnum := true, enumValues := values }

def referencing (p : Property) (schema : String) : Property := { p with complexType := some schema }

def hasDefault (p : Property) : Bool := p.defaultValue.isSome

def isNamed (p : Property) (name : String) : Bool := p.name == name || p.wireName == name

/-- Two enums of one name with the same values in the same order. -/
def sameEnum (p q : Property) : Bool :=
  p.isEnum && q.isEnum && p.name == q.name && p.enumValues == q.enumValues

def inherited (p : Property) : Property := { p with isInherited := true, tag := none }

/-- Nullable properties come last; within each half those with a default do. -/
def rank (p : Property) : Nat :=
  (if p.isNullable then 2 else 0) + (if p.hasDefault then 1 else 0)

def sort (l : List Property) : List Property :=
  (l.mergeSort fun p q => decide (p.name ≤ q.name)).mergeSort fun p q => decide (p.rank ≤ q.rank)

def declares (l : List Property) (name : String) : Bool := l.any (·.name == name)

def firstOfEachName : List Property → List Property
  | [] => []
  | p :: ps => p :: (firstOfEachName ps).filter (·.name != p.name)

def conflicting (l : List Property) : List Property :=
  l.filter fun p => l.find? (·.name == p.name) != some p

def repeated : List Property → List Property := go []
where
  go (before : List Property) : List Property → List Property
    | [] => []
    | p :: ps => if before.contains p then p :: go before ps else go (p :: before) ps

def repetitionEvents (l : List Property) : List Event :=
  (repeated l).map fun p => .duplicateDropped p.name

theorem mem_sort {p : Property} {l : List Property} : p ∈ sort l ↔ p ∈ l := by
  simp [sort, List.mem_mergeSort]

theorem sort_perm (l : List Property) : (sort l).Perm l :=
  (List.mergeSort_perm _ _).trans (List.mergeSort_perm _ _)

end Property

end ApiModel
