import ApiModel.Json
import ApiModel.Json.Fault

/-!
JSON values as they are read, as far as the text gives them. Where the text breaks, every array and
object that is still open ends in a tear, which says what is wrong with the rest. A value that is
used and one that is only passed over are not held to the same rules (a lone surrogate may be passed
over, but not used), so a tear has a fault for each.
-/

namespace ApiModel.Json

structure Tear where
  /-- For a reader that needs what comes next. -/
  used : Fault
  /-- For a reader that passes over it. -/
  skipped : Fault
deriving DecidableEq, Repr

namespace Tear

def of (f : Fault) : Tear := ⟨f, f⟩

end Tear

inductive Key
  /-- Without content if it holds a lone surrogate. -/
  | string (content : Option String)
  | broken (tear : Tear)
  | other (fault : Fault)
deriving DecidableEq, Repr

inductive Draft
  | null
  | bool (b : Bool)
  /-- All that is kept of a number is whether a double can hold it. -/
  | number (inRange : Bool)
  | string (content : Option String)
  | array (items : List Draft) (tear : Option Tear)
  | object (members : List (Key × Draft)) (tear : Option Tear)
  | garbled (tear : Tear)
  | broken (tear : Tear)
deriving Inhabited

namespace Draft

/-- The fault of a value that is not of the expected kind. An array or object is told by its first
character, everything else is read whole before. -/
def mismatch : Draft → Fault
  | number false | string none => .malformed
  | garbled t | broken t => t.used
  | null | bool _ | number true | string (some _) | array .. | object .. => .mismatched

def skip : Draft → Except Fault Unit
  | array _ (some t) | object _ (some t) | garbled t | broken t => .error t.skipped
  | null | bool _ | number _ | string _ | array _ none | object _ none => .ok ()

mutual

def ofJson : Json → Draft
  | .null => .null
  | .bool b => .bool b
  | .string s => .string (some s)
  | .array items => .array (ofItems items) none
  | .object members => .object (ofMembers members) none

def ofItems : List Json → List Draft
  | [] => []
  | item :: items => ofJson item :: ofItems items

def ofMembers : List (String × Json) → List (Key × Draft)
  | [] => []
  | (key, value) :: members => (.string (some key), ofJson value) :: ofMembers members

end

end Draft

end ApiModel.Json
