import ApiModel.Json.Record
import ApiModel.Response

/-!
Success shapes in JSON: an object that names the kind of the shape and holds its type, in either
order, or an array of the two. A type that comes before the kind has to be kept until the kind is
known; what is kept must be JSON throughout and not be nested too deeply.
-/

namespace ApiModel

open Json

namespace Json

/-- How many arrays and objects may stand in each other inside of a value that is kept. -/
def keptDepth : Nat := 123

mutual

/-- The fault met by keeping a value whose kind is not known yet. -/
def Draft.keep (depth : Nat) : Draft → Except Fault Unit
  | .null | .bool _ | .number true | .string (some _) => .ok ()
  | .number false | .string none => .error .malformed
  | .garbled t | .broken t => .error t.used
  | .array items tear =>
    match depth with
    | 0 => .error .malformed
    | depth + 1 => do
      keepItems depth items
      endOf tear
  | .object members tear =>
    match depth with
    | 0 => .error .malformed
    | depth + 1 => do
      keepMembers depth members
      endOf tear

def keepItems (depth : Nat) : List Draft → Except Fault Unit
  | [] => .ok ()
  | item :: items => do
    item.keep depth
    keepItems depth items

def keepMembers (depth : Nat) : List (Key × Draft) → Except Fault Unit
  | [] => .ok ()
  | (key, value) :: members => do
    discard key.read
    value.keep depth
    keepMembers depth members

end

end Json

namespace SuccessShape

inductive Kind
  | none
  | object
  | array
  | map
deriving DecidableEq, Repr

namespace Kind

def all : List Kind := [none, object, array, map]

def text : Kind → String
  | none => "None"
  | object => "Object"
  | array => "Array"
  | map => "Map"

def read : Draft → Except Fault Kind
  | .string (some s) =>
    match all.find? (·.text == s) with
    | some kind => .ok kind
    | Option.none => .error .mismatched
  | d => .error d.mismatch

def readType (d : Draft) : Kind → Except Fault SuccessShape
  | none => match d with
    | .null => .ok .none
    | d => .error d.mismatch
  | object => (Codec.string.read d).map .object
  | array => (Codec.string.option.read d).map .array
  | map => (Codec.string.option.read d).map .map

/-- The shape without any type; only an object has to have one. -/
def withoutType : Kind → Except Fault SuccessShape
  | none => .ok .none
  | object => .error .mismatched
  | array => .ok (.array Option.none)
  | map => .ok (.map Option.none)

end Kind

inductive Part
  | kind
  | type
deriving DecidableEq, Repr

def nextPart (tear : Option Tear) :
    List (Key × Draft) → Except Fault (Option (Part × Draft × List (Key × Draft)))
  | [] => do
    endOf tear
    return Option.none
  | (key, value) :: members => do
    let name ← key.read
    if name = "kind" then return some (.kind, value, members)
    else if name = "type" then return some (.type, value, members)
    else
      value.skip
      nextPart tear members

def noMore (tear : Option Tear) (members : List (Key × Draft)) : Except Fault Unit := do
  if (← nextPart tear members).isSome then throw .mismatched

def readMembers (tear : Option Tear) (members : List (Key × Draft)) :
    Except Fault SuccessShape := do
  match ← nextPart tear members with
  | Option.none => throw .mismatched
  | some (.kind, value, members) =>
    let kind ← Kind.read value
    match ← nextPart tear members with
    | Option.none => kind.withoutType
    | some (.kind, _, _) => throw .mismatched
    | some (.type, type, members) =>
      let shape ← kind.readType type
      noMore tear members
      return shape
  | some (.type, type, members) =>
    type.keep keptDepth
    match ← nextPart tear members with
    | some (.kind, value, members) =>
      let shape ← (← Kind.read value).readType type
      noMore tear members
      return shape
    | _ => throw .mismatched

def readItems (tear : Option Tear) : List Draft → Except Fault SuccessShape
  | [] => do
    endOf tear
    throw .mismatched
  | value :: items => do
    let kind ← Kind.read value
    match items with
    | [] =>
      endOf tear
      throw .mismatched
    | type :: more =>
      let shape ← kind.readType type
      if more.isEmpty then endOf tear else throw .malformed
      return shape

def write (kind : Kind) (type : List (String × Json)) : Json :=
  .object (("kind", .string kind.text) :: type)

def codec : Codec SuccessShape where
  read
    | .object members tear => readMembers tear members
    | .array items tear => readItems tear items
    | d => .error d.mismatch
  write
    | none => write .none []
    | object type => write .object [("type", .string type)]
    | array item => write .array [("type", Codec.string.option.write item)]
    | map value => write .map [("type", Codec.string.option.write value)]

end SuccessShape

end ApiModel
