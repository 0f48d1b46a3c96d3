import ApiModel.Event

/-!
Responses of operations. The success response is the first one with a code of the 2xx family, else
the first one declared; its shape says what the payload is.
-/

namespace ApiModel

structure Response where
  statusCode : String := ""
  dataType : Option String := none
  baseType : Option String := none
  containerType : Option String := none
  isArray : Bool := false
  isMap : Bool := false
  itemType : Option String := none
  valueType : Option String := none
  message : Option String := none
deriving DecidableEq, Repr, Inhabited

inductive SuccessShape
  | none
  | object (type : String)
  | array (item : Option String)
  | map (value : Option String)
deriving DecidableEq, Repr, Inhabited

structure Success where
  shape : SuccessShape := .none
  statusCode : Option String := none
  message : Option String := none
deriving DecidableEq, Repr, Inhabited

namespace Response

def ofCode (statusCode : String) : Response := { statusCode }

def withDataType (r : Response) (dataType : String) : Response :=
  { r with dataType := some dataType }

def isSuccessCode (code : String) : Bool := code.toList.head? == some '2'

def isSuccess (r : Response) : Bool := isSuccessCode r.statusCode

def successIndex? (l : List Response) : Option Nat :=
  l.findIdx? isSuccess <|> if l.isEmpty then none else some 0

def success? (l : List Response) : Option Response := (successIndex? l).bind (l[·]?)

/-- An empty type name counts as none. -/
def nonempty (type : Option String) : Option String := type.filter (!·.isEmpty)

def emptyType : String := "EmptyResponse"

def shape (r : Response) : SuccessShape :=
  match nonempty r.dataType <|> nonempty r.baseType <|> nonempty r.containerType with
  | some type => .object type
  | none =>
    if r.isArray then .array (nonempty r.itemType)
    else if r.isMap then .map (nonempty r.valueType)
    else .object emptyType

def classify (l : List Response) : Success :=
  match success? l with
  | none => {}
  | some r => { shape := r.shape, statusCode := some r.statusCode, message := r.message }

def events (l : List Response) : List Event := if l.isEmpty then [.responsesMissing] else []

end Response

end ApiModel
