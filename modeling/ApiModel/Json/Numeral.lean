import ApiModel.Json.Draft

/-!
JSON numbers, as far as their form and their size go. A number is in range if its leading digits,
rounded to a double, times the power of ten that remains, rounded likewise, stay below the point
where doubles end.
-/

namespace ApiModel.Json

structure Numeral where
  whole : List Char
  fraction : List Char := []
  exponentIsNegative : Bool := false
  exponent : List Char := []
deriving DecidableEq, Repr

namespace Numeral

def digits (cs : List Char) : List Char := cs.takeWhile Char.isDigit

def afterDigits (cs : List Char) : List Char := cs.dropWhile Char.isDigit

/-- The tear where a digit is missing. Only a reader that uses the number asks whether the text
ends there. -/
def missingDigit (rest : List Char) : Tear :=
  ⟨if rest.isEmpty then .truncated else .malformed, .malformed⟩

def readExponent (n : Numeral) : List Char → Except Tear (Numeral × List Char)
  | [] => .ok (n, [])
  | c :: cs =>
    if c = 'e' ∨ c = 'E' then
      let signed := cs.head? == some '+' || cs.head? == some '-'
      let rest := if signed then cs.tail else cs
      if (digits rest).isEmpty then .error (missingDigit rest)
      else .ok ({ n with
        exponentIsNegative := cs.head? == some '-', exponent := digits rest }, afterDigits rest)
    else .ok (n, c :: cs)

def readFraction (n : Numeral) : List Char → Except Tear (Numeral × List Char)
  | [] => .ok (n, [])
  | c :: cs =>
    if c = '.' then
      if (digits cs).isEmpty then .error (missingDigit cs)
      else readExponent { n with fraction := digits cs } (afterDigits cs)
    else readExponent n (c :: cs)

def read (cs : List Char) : Except Tear (Numeral × List Char) :=
  let whole := digits cs
  if whole.isEmpty then .error (missingDigit cs)
  else if whole.head? == some '0' && whole.length ≠ 1 then .error ⟨.malformed, .malformed⟩
  else readFraction { whole } (afterDigits cs)

def natOf (ds : List Char) : Nat := ds.foldl (fun n d => n * 10 + (d.toNat - 48)) 0

/-- Leading digits while they fit into 64 bits, and how many do not count any more. -/
def takeDigits (start : Nat) : List Char → Nat × List Char
  | [] => (start, [])
  | d :: ds =>
    let next := start * 10 + (d.toNat - 48)
    if next < 0x10000000000000000 then takeDigits next ds else (start, d :: ds)

def scaled (n : Numeral) : Nat × Int :=
  let (whole, dropped) := takeDigits 0 n.whole
  let (all, ignored) := takeDigits whole n.fraction
  let shift : Int := dropped.length - (n.fraction.length - ignored.length : Nat)
  (all, if n.exponentIsNegative then shift - natOf n.exponent else shift + natOf n.exponent)

/-- To 53 binary digits; a tie goes to the even neighbour. -/
def roundToDouble (n : Nat) : Nat :=
  let step := Nat.pow 2 (n.log2 - 52)
  let low := n % step
  let high := n / step
  let up := step < 2 * low || step == 2 * low && high % 2 == 1
  (if up then high + 1 else high) * step

/-- Half a step above the greatest double; from here on products are rounded up to infinity. -/
def overflow : Nat := Nat.pow 2 1024 - Nat.pow 2 970

def inRange (n : Numeral) : Bool :=
  let (significand, power) := n.scaled
  significand == 0 || power < 0 ||
    (power ≤ 308 &&
      roundToDouble significand * roundToDouble (Nat.pow 10 power.toNat) < overflow)

theorem length_afterDigits_le (cs : List Char) : (afterDigits cs).length ≤ cs.length :=
  (List.dropWhile_sublist _).length_le

theorem length_readExponent_le {n m : Numeral} {cs rest : List Char}
    (h : readExponent n cs = .ok (m, rest)) : rest.length ≤ cs.length := by
  cases cs with
  | nil => simp [readExponent] at h; simp [h]
  | cons c cs =>
    simp only [readExponent] at h
    generalize hr : (if (cs.head? == some '+' || cs.head? == some '-') = true then cs.tail else cs)
      = behind at h
    have hl : behind.length ≤ cs.length := by
      rw [← hr]
      split <;> simp
    split at h
    · split at h
      · simp at h
      · obtain ⟨-, rfl⟩ := Prod.mk.inj (Except.ok.inj h)
        have := length_afterDigits_le behind
        simp
        omega
    · obtain ⟨-, rfl⟩ := Prod.mk.inj (Except.ok.inj h)
      exact Nat.le_refl _

theorem length_readFraction_le {n m : Numeral} {cs rest : List Char}
    (h : readFraction n cs = .ok (m, rest)) : rest.length ≤ cs.length := by
  cases cs with
  | nil => simp [readFraction] at h; simp [h]
  | cons c cs =>
    simp only [readFraction] at h
    split at h
    · split at h
      · simp at h
      · have := length_readExponent_le h
        have := length_afterDigits_le cs
        simp
        omega
    · exact length_readExponent_le h

theorem length_read_lt {m : Numeral} {cs rest : List Char} (h : read cs = .ok (m, rest)) :
    rest.length < cs.length := by
  simp only [read] at h
  split at h
  · simp at h
  next digit =>
    split at h
    · simp at h
    · have shorter := length_readFraction_le h
      have split : (digits cs).length + (afterDigits cs).length = cs.length := by
        rw [← List.length_append, digits, afterDigits, List.takeWhile_append_dropWhile]
      have := List.length_pos_iff.2 (by simpa using digit : digits cs ≠ [])
      omega

end Numeral

end ApiModel.Json
