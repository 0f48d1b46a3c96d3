import ApiModel.Text.Hex

/-!
JSON values as the library writes them, and their indented text: two spaces a level, one item a
line, empty arrays and objects closed at once. Members keep their order.
-/

namespace ApiModel

inductive Json
  | null
  | bool (b : Bool)
  | string (s : String)
  | array (items : List Json)
  | object (members : List (String × Json))
deriving Inhabited

namespace Json

def escaped (c : Char) : List Char :=
  match c with
  | '"' => ['\\', '"']
  | '\\' => ['\\', '\\']
  | '\x08' => ['\\', 'b']
  | '\x0c' => ['\\', 'f']
  | '\n' => ['\\', 'n']
  | '\r' => ['\\', 'r']
  | '\t' => ['\\', 't']
  | c =>
    if c.toNat < 0x20 then
      ['\\', 'u', '0', '0', Hex.digit (c.toNat / 16), Hex.digit (c.toNat % 16)]
    else [c]

def quote (s : String) : List Char := '"' :: s.toList.flatMap escaped ++ ['"']

def newline (depth : Nat) : List Char := '\n' :: List.replicate (2 * depth) ' '

mutual

/-- The text of a value whose first line stands at the given depth. -/
def lines (depth : Nat) : Json → List Char
  | null => "null".toList
  | bool b => (if b then "true" else "false").toList
  | string s => quote s
  | array [] => ['[', ']']
  | array (item :: items) =>
    '[' :: newline (depth + 1) ++ item.lines (depth + 1) ++ moreItems (depth + 1) items ++
      newline depth ++ [']']
  | object [] => ['{', '}']
  | object ((key, value) :: members) =>
    '{' :: newline (depth + 1) ++ quote key ++ [':', ' '] ++ value.lines (depth + 1) ++
      moreMembers (depth + 1) members ++ newline depth ++ ['}']

def moreItems (depth : Nat) : List Json → List Char
  | [] => []
  | item :: items => ',' :: newline depth ++ item.lines depth ++ moreItems depth items

def moreMembers (depth : Nat) : List (String × Json) → List Char
  | [] => []
  | (key, value) :: members =>
    ',' :: newline depth ++ quote key ++ [':', ' '] ++ value.lines depth ++
      moreMembers depth members

end

def pretty (j : Json) : String := String.ofList (j.lines 0)

end Json

end ApiModel
