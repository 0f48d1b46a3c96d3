import ApiModel.Json
import ApiModel.Json.Token

/-! The text of a value, token by token. Whatever stands behind it, the text is scanned into the
tokens of the value and nothing else: blanks are passed over, and each escaped character of a string
is read as this character. -/

namespace ApiModel.Json

theorem number?_digits {n : Nat} (h : n < 0x20) :
    Hex.number? ['0', '0', Hex.digit (n / 16), Hex.digit (n % 16)] = some n := by
  revert n
  decide

namespace Quoted

theorem scan_named {e c : Char} (h : named? e = some c) (rest : List Char) :
    scan ('\\' :: e :: rest) = (scan rest).push (.char c) := by
  have named : e ≠ 'u' := by
    rintro rfl
    cases h
  rw [scan.eq_def]
  simp [named, h]

theorem scan_numbered {a b c d : Char} {n : Nat} (h : Hex.number? [a, b, c, d] = some n)
    (rest : List Char) :
    scan ('\\' :: 'u' :: a :: b :: c :: d :: rest) = (scan rest).push (.ofUnit n) := by
  rw [scan.eq_def]
  simp [h]

theorem scan_plain {c : Char} (quote : c ≠ '"') (escape : c ≠ '\\') (visible : ¬ c.toNat < 0x20)
    (rest : List Char) : scan (c :: rest) = (scan rest).push (.char c) := by
  rw [scan.eq_def]
  simp [quote, escape, visible]

theorem scan_escaped (c : Char) (rest : List Char) :
    scan (escaped c ++ rest) = (scan rest).push (.char c) := by
  unfold escaped
  split
  case h_8 quote escape _ _ _ _ _ =>
    split
    next control =>
      have unit : Piece.ofUnit c.toNat = .char c := by
        rw [Piece.ofUnit, if_neg (by omega), Char.ofNat_toNat]
      exact unit ▸ scan_numbered (number?_digits control) rest
    next visible => exact scan_plain quote escape visible rest
  all_goals exact scan_named rfl rest

theorem scan_flatMap_escaped (cs rest : List Char) :
    scan (cs.flatMap escaped ++ '"' :: rest) = ⟨cs.map .char, .ok rest⟩ := by
  induction cs with
  | nil =>
    have closed : scan ('"' :: rest) = ⟨[], .ok rest⟩ := by
      rw [scan.eq_def]
      rfl
    exact closed
  | cons c cs ih =>
    rw [List.flatMap_cons, List.append_assoc, scan_escaped, ih]
    rfl

theorem join_map_char (cs : List Char) : join none (cs.map .char) = some cs := by
  induction cs with
  | nil => rfl
  | cons c cs ih =>
    show (join none (cs.map .char)).map (c :: ·) = _
    rw [ih]
    rfl

theorem content_map_char (s : String) : content (s.toList.map .char) = some s := by
  rw [content, join_map_char, Option.map_some, String.ofList_toList]

end Quoted

mutual

def tokens : Json → List Token
  | null => [.null]
  | bool b => [.bool b]
  | string s => [.string (some s)]
  | array [] => [.arrayStart, .arrayEnd]
  | array (item :: items) => .arrayStart :: item.tokens ++ moreItemTokens items ++ [.arrayEnd]
  | object [] => [.objectStart, .objectEnd]
  | object ((key, value) :: members) =>
    .objectStart :: .string (some key) :: .colon :: value.tokens ++ moreMemberTokens members ++
      [.objectEnd]

def moreItemTokens : List Json → List Token
  | [] => []
  | item :: items => .comma :: item.tokens ++ moreItemTokens items

def moreMemberTokens : List (String × Json) → List Token
  | [] => []
  | (key, value) :: members =>
    .comma :: .string (some key) :: .colon :: value.tokens ++ moreMemberTokens members

end

namespace Token

theorem scan_space {c : Char} (h : isSpace c = true) (cs : List Char) :
    scan (c :: cs) = scan cs := by rw [scan, if_pos h]

theorem scan_newline (depth : Nat) (rest : List Char) :
    scan (newline depth ++ rest) = scan rest := by
  have spaces (n : Nat) : scan (List.replicate n ' ' ++ rest) = scan rest := by
    induction n with
    | zero => rfl
    | succ n ih => rw [List.replicate_succ, List.cons_append, scan_space rfl, ih]
  rw [newline, List.cons_append, scan_space rfl, spaces]

theorem scan_punctuation {c : Char} {t : Token} (h : punctuation? c = some t)
    (dense : isSpace c = false) (cs : List Char) : scan (c :: cs) = t :: scan cs := by
  rw [scan, dense, if_neg Bool.false_ne_true]
  simp only [h]

theorem scan_lexeme {c : Char} {t : Token} {cs rest : List Char}
    (h : lexeme c cs = (t, some rest)) (plain : punctuation? c = none)
    (dense : isSpace c = false) : scan (c :: cs) = t :: scan rest := by
  rw [scan, dense, if_neg Bool.false_ne_true]
  simp only [plain]
  split
  next broken =>
    rw [h] at broken
    cases broken
  next behind whole =>
    rw [h] at whole
    rw [h, ← Option.some.inj whole]

theorem scan_quote (s : String) (rest : List Char) :
    scan (quote s ++ rest) = .string (some s) :: scan rest := by
  have inner := Quoted.scan_flatMap_escaped s.toList rest
  have lexeme : lexeme '"' (s.toList.flatMap escaped ++ '"' :: rest) =
      (.string (some s), some rest) := by
    rw [lexeme, if_pos rfl, inner]
    simp only [Quoted.content_map_char]
  rw [quote, List.append_assoc, List.cons_append]
  exact scan_lexeme lexeme rfl rfl

theorem scan_null (rest : List Char) : scan ("null".toList ++ rest) = .null :: scan rest :=
  scan_lexeme rfl rfl rfl

theorem scan_bool (b : Bool) (rest : List Char) :
    scan ((if b then "true" else "false").toList ++ rest) = .bool b :: scan rest := by
  cases b with
  | false => exact scan_lexeme rfl rfl rfl
  | true => exact scan_lexeme rfl rfl rfl

end Token

open Token

-- The induction is on the value, its items and its members; the depth only changes the blanks.
mutual

theorem scan_lines (depth : Nat) (rest : List Char) :
    (j : Json) → scan (j.lines depth ++ rest) = j.tokens ++ scan rest
  | null => scan_null rest
  | bool b => scan_bool b rest
  | string s => scan_quote s rest
  | array [] => by
    simp only [lines, tokens, List.cons_append, List.nil_append,
      scan_punctuation (c := '[') rfl rfl, scan_punctuation (c := ']') rfl rfl]
  | array (item :: items) => by
    simp only [lines, tokens, List.cons_append, List.append_assoc, List.nil_append,
      scan_punctuation (c := '[') rfl rfl, scan_newline, scan_lines, scan_moreItems,
      scan_punctuation (c := ']') rfl rfl]
  | object [] => by
    simp only [lines, tokens, List.cons_append, List.nil_append,
      scan_punctuation (c := '{') rfl rfl, scan_punctuation (c := '}') rfl rfl]
  | object ((key, value) :: members) => by
    simp only [lines, tokens, List.cons_append, List.append_assoc, List.nil_append,
      scan_punctuation (c := '{') rfl rfl, scan_newline, scan_quote,
      scan_punctuation (c := ':') rfl rfl, scan_space (c := ' ') rfl, scan_lines, scan_moreMembers,
      scan_punctuation (c := '}') rfl rfl]

theorem scan_moreItems (depth : Nat) (rest : List Char) : (items : List Json) →
    scan (moreItems depth items ++ rest) = moreItemTokens items ++ scan rest
  | [] => rfl
  | item :: items => by
    simp only [moreItems, moreItemTokens, List.cons_append, List.append_assoc,
      scan_punctuation (c := ',') rfl rfl, scan_newline, scan_lines, scan_moreItems]

theorem scan_moreMembers (depth : Nat) (rest : List Char) : (members : List (String × Json)) →
    scan (moreMembers depth members ++ rest) = moreMemberTokens members ++ scan rest
  | [] => rfl
  | (key, value) :: members => by
    simp only [moreMembers, moreMemberTokens, List.cons_append, List.append_assoc, List.nil_append,
      scan_punctuation (c := ',') rfl rfl, scan_newline, scan_quote,
      scan_punctuation (c := ':') rfl rfl, scan_space (c := ' ') rfl, scan_lines, scan_moreMembers]

end

theorem scan_pretty (j : Json) : scan j.pretty.toList = j.tokens := by
  have whole := scan_lines 0 [] j
  have nothing : scan [] = [] := by rw [scan]
  rw [List.append_nil, nothing, List.append_nil] at whole
  rw [pretty, String.toList_ofList, whole]

end ApiModel.Json
