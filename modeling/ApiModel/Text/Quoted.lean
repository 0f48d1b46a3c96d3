import ApiModel.Text.Invisible

/-!
Two ways of writing text between double quotes. `escapeLiteral` guards only the backslash and the
quote, for string literals of generated code; `quotedList` also writes line breaks by name and
invisible characters by number, for log lines.
-/

namespace ApiModel

def escapeLiteral (s : List Char) : List Char :=
  s.flatMap fun c => if c = '\\' ∨ c = '"' then ['\\', c] else [c]

def hexDigits (n : Nat) : List Char := Nat.toDigits 16 n

def shown (c : Char) : List Char :=
  match c with
  | '\x00' => ['\\', '0']
  | '\t' => ['\\', 't']
  | '\n' => ['\\', 'n']
  | '\r' => ['\\', 'r']
  | '\\' => ['\\', '\\']
  | '"' => ['\\', '"']
  | c =>
    if isInvisible c then ['\\', 'u', '\x7b'] ++ hexDigits c.toNat ++ ['\x7d'] else [c]

def quoted (s : String) : String :=
  String.ofList ('"' :: s.toList.flatMap shown ++ ['"'])

def quotedList (l : List String) : String :=
  "[" ++ ", ".intercalate (l.map quoted) ++ "]"

end ApiModel
