/-!
Hexadecimal digits.
-/

namespace ApiModel.Hex

def value? (c : Char) : Option Nat :=
  if c.isDigit then some (c.toNat - 48)
  else if 'a' ≤ c ∧ c ≤ 'f' then some (c.toNat - 87)
  else if 'A' ≤ c ∧ c ≤ 'F' then some (c.toNat - 55)
  else none

def number? (digits : List Char) : Option Nat :=
  digits.foldlM (fun n c => (value? c).map (n * 16 + ·)) 0

def digit (n : Nat) : Char := Char.ofNat (if n < 10 then 48 + n else 87 + n)

end ApiModel.Hex
