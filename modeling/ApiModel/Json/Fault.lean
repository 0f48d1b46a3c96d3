/-!
Kinds of faults that stop the reading of a JSON text.
-/

namespace ApiModel.Json

inductive Fault
  | malformed
  | truncated
  /-- The text is JSON so far, but not what is expected at this place. -/
  | mismatched
deriving DecidableEq, Repr

end ApiModel.Json
