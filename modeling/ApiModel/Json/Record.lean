import ApiModel.Json.Draft
import ApiModel.Keyed

/-!
How Lean values are read from JSON and written to it. A record is described by the list of its
fields; it is written as an object in that order, and read from an object in any order or from an
array in that order. Reading goes through the text once, so the first fault in it is the one told.
-/

namespace ApiModel.Json

structure Codec (α : Type) where
  read : Draft → Except Fault α
  write : α → Json

namespace Key

def read : Key → Except Fault String
  | string (some s) => .ok s
  | string none | other _ => .error .malformed
  | broken t => .error t.used

def readAsValue : Key → Except Fault String
  | string (some s) => .ok s
  | string none => .error .malformed
  | broken t => .error t.used
  | other f => .error f

end Key

def endOf : Option Tear → Except Fault Unit
  | none => .ok ()
  | some t => .error t.used

namespace Codec

def string : Codec String where
  read
    | .string (some s) => .ok s
    | d => .error d.mismatch
  write := .string

def bool : Codec Bool where
  read
    | .bool b => .ok b
    | d => .error d.mismatch
  write := .bool

def option {α : Type} (codec : Codec α) : Codec (Option α) where
  read
    | .null => .ok none
    | d => (codec.read d).map some
  write
    | none => .null
    | some a => codec.write a

def readItems {α : Type} (codec : Codec α) : List Draft → Except Fault (List α)
  | [] => .ok []
  | d :: ds => do return (← codec.read d) :: (← readItems codec ds)

def list {α : Type} (codec : Codec α) : Codec (List α) where
  read
    | .array items tear => do
      let values ← readItems codec items
      endOf tear
      return values
    | d => .error d.mismatch
  write values := .array (values.map codec.write)

def nameSet : Codec NameSet where
  read d := ((list string).read d).map Keyed.ofList
  write names := (list string).write names.toList

def readPairs : List (Key × Draft) → Except Fault (List (String × String))
  | [] => .ok []
  | (key, value) :: members => do
    let key ← key.read
    return (key, ← string.read value) :: (← readPairs members)

/-- An object of strings; of a repeated key the last value counts. -/
def stringMap : Codec (Keyed (String × String) Prod.fst) where
  read
    | .object members tear => do
      let pairs ← readPairs members
      endOf tear
      return .ofList pairs
    | d => .error d.mismatch
  write pairs := .object (pairs.toList.map fun (key, value) => (key, .string value))

/-- One of several names, `all` of them; it may also stand as the only key of an object, over a
`null`. -/
def choice {α : Type} (all : List α) (text : α → String) : Codec α where
  read
    | .string (some s) => named s
    | .string none => .error .malformed
    | .broken t => .error t.used
    | .object [] tear => do
      endOf tear
      throw .malformed
    | .object ((key, value) :: more) tear => do
      let a ← named (← key.readAsValue)
      match value with
      | .null => if more.isEmpty then endOf tear else throw .malformed
      | d => throw d.mismatch
      return a
    | .null | .bool _ | .number _ | .array .. | .garbled _ => .error .malformed
  write a := .string (text a)
where
  named (s : String) : Except Fault α :=
    match all.find? (text · == s) with
    | some a => .ok a
    | none => .error .mismatched

end Codec

/-- A field of the record `ρ`: how its value gets into a record, and what is written for it. -/
structure RecordField (ρ : Type) where
  name : String
  isRequired : Bool := false
  read : ρ → Draft → Except Fault ρ
  /-- Some fields are not written at all while they hold their default. -/
  write : ρ → Option Json

namespace RecordField

variable {ρ α : Type}

def plain (name : String) (codec : Codec α) (get : ρ → α) (set : ρ → α → ρ) : RecordField ρ where
  name
  read r d := (codec.read d).map (set r)
  write r := some (codec.write (get r))

def optional (name : String) (codec : Codec α) (get : ρ → Option α) (set : ρ → Option α → ρ) :
    RecordField ρ where
  name
  read r d := (codec.option.read d).map (set r)
  write r := (get r).map codec.write

def unlessEmpty (name : String) (codec : Codec α) (get : ρ → List α) (set : ρ → List α → ρ) :
    RecordField ρ where
  name
  read r d := (codec.list.read d).map (set r)
  write r := if (get r).isEmpty then none else some (codec.list.write (get r))

def required (f : RecordField ρ) : RecordField ρ := { f with isRequired := true }

end RecordField

namespace Record

variable {ρ : Type}

/-- Members by name; other members are passed over, and none of the fields may come twice. -/
def readMembers (fields : List (RecordField ρ)) (seen : List String) (r : ρ) :
    List (Key × Draft) → Except Fault (ρ × List String)
  | [] => .ok (r, seen)
  | (key, value) :: members => do
    let name ← key.read
    match fields.find? (·.name == name) with
    | none =>
      value.skip
      readMembers fields seen r members
    | some field =>
      if seen.contains name then throw .mismatched
      readMembers fields (name :: seen) (← field.read r value) members

/-- Items in the order of the fields; the last ones may be missing if they are not required. -/
def readItems (tear : Option Tear) (r : ρ) : List (RecordField ρ) → List Draft → Except Fault ρ
  | [], [] => do
    endOf tear
    return r
  | [], _ :: _ => .error .malformed
  | field :: fields, [] => do
    endOf tear
    if (field :: fields).any (·.isRequired) then throw .mismatched
    return r
  | field :: fields, item :: items => do readItems tear (← field.read r item) fields items

def codec (fields : List (RecordField ρ)) (start : ρ) : Codec ρ where
  read
    | .object members tear => do
      let (r, seen) ← readMembers fields [] start members
      endOf tear
      if fields.any fun f => f.isRequired && !seen.contains f.name then throw .mismatched
      return r
    | .array items tear => readItems tear start fields items
    | d => .error d.mismatch
  write r := .object (fields.filterMap fun f => (f.write r).map (f.name, ·))

end Record

end ApiModel.Json
