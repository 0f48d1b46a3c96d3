import ApiModel.Json.Draft
import ApiModel.Text.Hex

/-!
JSON strings. A string is read into units, which are characters and the halves of surrogate pairs;
then halves are joined. Passing over a string needs only the units, using it needs every half to
have its other half.
-/

namespace ApiModel.Json.Quoted

inductive Piece
  | char (c : Char)
  /-- Half of a surrogate pair, by its code unit. -/
  | half (unit : Nat)
deriving DecidableEq, Repr

namespace Piece

def isLeading : Piece → Bool
  | char _ => false
  | half n => n < 0xDC00

def ofUnit (n : Nat) : Piece :=
  if 0xD800 ≤ n ∧ n < 0xE000 then half n else char (Char.ofNat n)

end Piece

def named? : Char → Option Char
  | '"' => some '"'
  | '\\' => some '\\'
  | '/' => some '/'
  | 'b' => some '\x08'
  | 'f' => some '\x0c'
  | 'n' => some '\n'
  | 'r' => some '\r'
  | 't' => some '\t'
  | _ => none

structure Scan where
  pieces : List Piece
  rest : Except Fault (List Char)

namespace Scan

def fault (f : Fault) : Scan := ⟨[], .error f⟩

def push (p : Piece) (s : Scan) : Scan := { s with pieces := p :: s.pieces }

end Scan

/-- The fault of an escape by number with less than four characters after it: the text ends, unless
these fill four bytes. -/
def shortEscape (cs : List Char) : Fault :=
  if (String.ofList cs).utf8ByteSize < 4 then .truncated else .malformed

def scan : List Char → Scan
  | [] => .fault .truncated
  | c :: cs =>
    if c = '"' then ⟨[], .ok cs⟩
    else if c = '\\' then
      match cs with
      | [] => .fault .truncated
      | e :: cs =>
        if e = 'u' then
          match cs with
          | a :: b :: c :: d :: cs =>
            match Hex.number? [a, b, c, d] with
            | some n => (scan cs).push (.ofUnit n)
            | none => .fault .malformed
          | cs => .fault (shortEscape cs)
        else
          match named? e with
          | some c => (scan cs).push (.char c)
          | none => .fault .malformed
    else if c.toNat < 0x20 then .fault .malformed
    else (scan cs).push (.char c)

/-- Joins the halves; `lead` is one that waits for its other half. -/
def join (lead : Option Nat) : List Piece → Option (List Char)
  | [] => if lead.isNone then some [] else none
  | .char c :: ps => if lead.isNone then (join none ps).map (c :: ·) else none
  | .half n :: ps =>
    match lead with
    | none => if n < 0xDC00 then join (some n) ps else none
    | some m =>
      if n < 0xDC00 then none
      else (join none ps).map (Char.ofNat ((m - 0xD800) * 0x400 + (n - 0xDC00) + 0x10000) :: ·)

def content (pieces : List Piece) : Option String := (join none pieces).map String.ofList

/-- Whether no half among the pieces read so far can be without its other half for good. -/
def canContinue (pieces : List Piece) : Bool :=
  let rest := if pieces.getLast?.any Piece.isLeading then [Piece.half 0xDC00] else []
  (join none (pieces ++ rest)).isSome

def tear (pieces : List Piece) (f : Fault) : Tear :=
  { used := if canContinue pieces then f else .malformed, skipped := f }

theorem length_rest_le {cs rest : List Char} (h : (scan cs).rest = .ok rest) :
    rest.length ≤ cs.length := by
  fun_induction scan cs generalizing rest
  case case1 | case3 | case5 | case6 | case8 | case9 => simp [Scan.fault] at h
  case case2 => simp at h; simp [← h]
  case case4 ih | case7 ih | case10 ih => have := ih h; simp; omega

end ApiModel.Json.Quoted
