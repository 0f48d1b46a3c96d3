import ApiModel.Json.Token

/-!
Drafts from tokens, one token at a time. The arrays and objects that are open form a stack; a value
goes into the topmost one, and where a token does not fit all of them are torn.
-/

namespace ApiModel.Json

/-- An open array or object, with its contents backwards. -/
inductive Frame
  | array (items : List Draft)
  /-- The key waits for its value. -/
  | object (members : List (Key × Draft)) (key : Option Key)

namespace Frame

def add (v : Draft) : Frame → Frame
  | array items => array (v :: items)
  | object members (some key) => object ((key, v) :: members) none
  | object members none => object members none

def close (tear : Option Tear) : Frame → Draft
  | array items => .array items.reverse tear
  | object members _ => .object members.reverse tear

end Frame

structure Reading where
  value : Draft
  isFollowed : Bool := false

namespace Reading

inductive Place
  | value
  | firstItem
  | firstKey
  | key
  | colon
  | next

inductive State
  | inside (place : Place) (stack : List Frame)
  | whole (root : Draft)
  | stopped (reading : Reading)

/-- Tears every open frame around `v`, which is the last value in the topmost one. -/
def tearAround (t : Tear) (stack : List Frame) (v : Draft) : Reading :=
  ⟨stack.foldl (fun v f => (f.add v).close (some t)) v, false⟩

def tearTop (t : Tear) : List Frame → Reading
  | [] => ⟨.broken t, false⟩
  | f :: fs => tearAround t fs (f.close (some t))

def tearKey (t : Tear) (key : Key) : List Frame → Reading
  | .object members _ :: fs => tearAround t (.object members (some key) :: fs) (.broken t)
  | stack => tearTop t stack

def strayKey : Token → Key
  | .null | .bool _ | .number true | .arrayStart | .objectStart => .other .mismatched
  | .garbled t => .other t.used
  | _ => .other .malformed

def State.behind (v : Draft) : List Frame → State
  | [] => .whole v
  | f :: fs => .inside .next (f.add v :: fs)

def State.closeTop : List Frame → State
  | [] => .stopped (tearTop (.of .malformed) [])
  | f :: fs => .behind (f.close none) fs

def stepValue (stack : List Frame) : Token → State
  | .string content => .behind (.string content) stack
  | .null => .behind .null stack
  | .bool b => .behind (.bool b) stack
  | .number inRange => .behind (.number inRange) stack
  | .arrayStart => .inside .firstItem (.array [] :: stack)
  | .objectStart => .inside .firstKey (.object [] none :: stack)
  | .brokenString t => .stopped (tearAround t stack (.broken t))
  | .garbled t => .stopped (tearAround t stack (.garbled t))
  | .arrayEnd | .objectEnd | .comma | .colon | .stray =>
    .stopped (tearAround (.of .malformed) stack (.broken (.of .malformed)))

def stepKey (stack : List Frame) (token : Token) : State :=
  match token, stack with
  | .string content, .object members _ :: fs =>
    .inside .colon (.object members (some (.string content)) :: fs)
  | .brokenString t, stack => .stopped (tearKey t (.broken t) stack)
  | token, stack => .stopped (tearKey (.of .malformed) (strayKey token) stack)

def stepNext (stack : List Frame) (token : Token) : State :=
  match token, stack with
  | .comma, .array items :: fs => .inside .value (.array items :: fs)
  | .comma, .object members k :: fs => .inside .key (.object members k :: fs)
  | .arrayEnd, .array items :: fs => .closeTop (.array items :: fs)
  | .objectEnd, .object members k :: fs => .closeTop (.object members k :: fs)
  | _, stack => .stopped (tearTop (.of .malformed) stack)

def step : State → Token → State
  | .inside .value stack, token => stepValue stack token
  | .inside .firstItem stack, token =>
    if token = .arrayEnd then .closeTop stack else stepValue stack token
  | .inside .firstKey stack, token =>
    if token = .objectEnd then .closeTop stack else stepKey stack token
  | .inside .key stack, token => stepKey stack token
  | .inside .colon stack, token =>
    if token = .colon then .inside .value stack
    else .stopped (tearAround (.of .malformed) stack (.broken (.of .malformed)))
  | .inside .next stack, token => stepNext stack token
  | .whole root, _ => .stopped ⟨root, true⟩
  | .stopped r, _ => .stopped r

def State.finish : State → Reading
  | .inside .value stack | .inside .colon stack =>
    tearAround (.of .truncated) stack (.broken (.of .truncated))
  | .inside .key stack => tearKey (.of .truncated) (.broken (.of .truncated)) stack
  | .inside .firstItem stack | .inside .firstKey stack | .inside .next stack =>
    tearTop (.of .truncated) stack
  | .whole root => ⟨root, false⟩
  | .stopped r => r

def ofTokens (tokens : List Token) : Reading := (tokens.foldl step (.inside .value [])).finish

def ofText (text : String) : Reading := ofTokens (Token.scan text.toList)

end Reading

end ApiModel.Json
