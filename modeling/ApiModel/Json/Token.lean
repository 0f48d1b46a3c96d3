import ApiModel.Json.Numeral
import ApiModel.Json.Quoted

/-!
The tokens of a JSON text, up to the first place where it is no JSON.
-/

namespace ApiModel.Json

inductive Token
  | arrayStart
  | arrayEnd
  | objectStart
  | objectEnd
  | comma
  | colon
  | string (content : Option String)
  | brokenString (tear : Tear)
  | null
  | bool (b : Bool)
  | number (inRange : Bool)
  | garbled (tear : Tear)
  | stray
deriving DecidableEq, Repr

namespace Token

def isSpace (c : Char) : Bool := c == ' ' || c == '\t' || c == '\n' || c == '\r'

def behind (word : List Char) (cs : List Char) : Except Fault (List Char) :=
  match word, cs with
  | [], cs => .ok cs
  | _ :: _, [] => .error .truncated
  | w :: ws, c :: cs => if c = w then behind ws cs else .error .malformed

theorem length_behind_le {word cs rest : List Char} (h : behind word cs = .ok rest) :
    rest.length ≤ cs.length := by
  fun_induction behind word cs
  case case1 => simp at h; simp [h]
  case case2 | case4 => simp at h
  case case3 ih => have := ih h; simp; omega

/-- A string, number or literal that starts with `c`, with the text behind it unless it breaks
off. -/
def lexeme (c : Char) (cs : List Char) : Token × Option (List Char) :=
  if c = '"' then
    let s := Quoted.scan cs
    match s.rest with
    | .ok rest => (.string (Quoted.content s.pieces), some rest)
    | .error f => (.brokenString (Quoted.tear s.pieces f), none)
  else if c = '-' then number (Numeral.read cs)
  else if c.isDigit then number (Numeral.read (c :: cs))
  else if c = 'n' then literal .null (behind "ull".toList cs)
  else if c = 't' then literal (.bool true) (behind "rue".toList cs)
  else if c = 'f' then literal (.bool false) (behind "alse".toList cs)
  else (.stray, none)
where
  number : Except Tear (Numeral × List Char) → Token × Option (List Char)
    | .ok (n, rest) => (.number n.inRange, some rest)
    | .error t => (.garbled t, none)
  literal (token : Token) : Except Fault (List Char) → Token × Option (List Char)
    | .ok rest => (token, some rest)
    | .error f => (.garbled (.of f), none)

theorem length_lexeme_le {c : Char} {cs rest : List Char} (h : (lexeme c cs).2 = some rest) :
    rest.length ≤ cs.length := by
  have literal {word : List Char} {t : Token}
      (h : (lexeme.literal t (behind word cs)).2 = some rest) : rest.length ≤ cs.length := by
    cases hb : behind word cs with
    | ok rest' => simp [lexeme.literal, hb] at h; exact h ▸ length_behind_le hb
    | error f => simp [lexeme.literal, hb] at h
  have number {cs' : List Char} (le : cs'.length ≤ cs.length + 1)
      (h : (lexeme.number (Numeral.read cs')).2 = some rest) : rest.length ≤ cs.length := by
    cases hr : Numeral.read cs' with
    | ok r =>
      simp [lexeme.number, hr] at h
      have := Numeral.length_read_lt hr
      rw [h] at this
      omega
    | error t => simp [lexeme.number, hr] at h
  unfold lexeme at h
  split at h
  · dsimp only at h
    split at h
    next rest' hs => simp at h; exact h ▸ Quoted.length_rest_le hs
    next => simp at h
  split at h
  · exact number (by omega) h
  split at h
  · exact number (by simp) h
  split at h
  · exact literal h
  split at h
  · exact literal h
  split at h
  · exact literal h
  · simp at h

def punctuation? : Char → Option Token
  | '[' => some .arrayStart
  | ']' => some .arrayEnd
  | '{' => some .objectStart
  | '}' => some .objectEnd
  | ',' => some .comma
  | ':' => some .colon
  | _ => none

/-- Nothing is read behind a token that breaks off. -/
def scan : List Char → List Token
  | [] => []
  | c :: cs =>
    if isSpace c then scan cs
    else
      match punctuation? c with
      | some t => t :: scan cs
      | none =>
        (lexeme c cs).1 ::
          match h : (lexeme c cs).2 with
          | none => []
          | some rest =>
            have := length_lexeme_le h
            scan rest
termination_by cs => cs.length

end Token

end ApiModel.Json
