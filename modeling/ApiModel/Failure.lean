import ApiModel.Json.Fault

/-!
Why a document is refused. Each cause carries the names that its message tells.
-/

namespace ApiModel

inductive Failure
  | unbalancedBraces (path : String)
  | unknownPathParameter (path placeholder : String)
  /-- The first name of the chain is also its last. -/
  | cyclicInheritance (chain : List String)
  | duplicateSchema (name : String)
  /-- `first` and `second` are the transmitted names of two properties called `name`. -/
  | nameCollision (schema name first second : String)
  | duplicateOperation (operationId : String)
  | unreadable (fault : Json.Fault)
deriving DecidableEq, Repr

namespace Failure

def message? : Failure → Option String
  | unbalancedBraces path =>
    some ("Unbalanced braces in path template '" ++ path ++ "'")
  | unknownPathParameter path placeholder =>
    some ("Path template '" ++ path ++ "' references '\x7b" ++ placeholder ++
      "\x7d' but no such parameter is declared")
  | cyclicInheritance chain =>
    some ("Cyclic inheritance chain: " ++ " -> ".intercalate chain)
  | duplicateSchema name =>
    some ("Duplicate schema '" ++ name ++ "'. Each schema must have a unique name.")
  | nameCollision schema name first second =>
    some ("Property name '" ++ name ++ "' on schema '" ++ schema ++ "' is produced by both '" ++
      first ++ "' and '" ++ second ++ "'")
  | duplicateOperation operationId =>
    some ("Duplicate operationId '" ++ operationId ++
      "' detected. Each operation must have a unique identifier.")
  | unreadable _ => none

end Failure

end ApiModel
