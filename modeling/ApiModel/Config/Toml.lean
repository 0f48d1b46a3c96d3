import ApiModel.Config
import ApiModel.Text.Hex

/-!
Configurations as TOML texts. Every known setting is a string or a boolean at the top level, so a
text that holds anything else than lines of such settings is refused, be it TOML or not.
-/

namespace ApiModel

namespace Toml

def isSpace (c : Char) : Bool := c == ' ' || c == '\t'

def dropSpaces (cs : List Char) : List Char := cs.dropWhile isSpace

def isPlain (c : Char) : Bool := c == '\t' || (0x20 ≤ c.toNat && c.toNat != 0x7F)

def afterBreak : List Char → Option (List Char)
  | '\n' :: cs => some cs
  | '\r' :: '\n' :: cs => some cs
  | _ => none

def afterLine (cs : List Char) : Option (List Char) :=
  let rest :=
    match dropSpaces cs with
    | '#' :: cs => cs.dropWhile isPlain
    | cs => cs
  if rest.isEmpty then some [] else afterBreak rest

def scalar? (digits : List Char) : Option Char :=
  (Hex.number? digits).bind fun n => if h : n.isValidChar then some (Char.ofNatAux n h) else none

def escape : List Char → Option (Char × List Char)
  | 'b' :: cs => some ('\x08', cs)
  | 't' :: cs => some ('\t', cs)
  | 'n' :: cs => some ('\n', cs)
  | 'f' :: cs => some ('\x0c', cs)
  | 'r' :: cs => some ('\r', cs)
  | '"' :: cs => some ('"', cs)
  | '\\' :: cs => some ('\\', cs)
  | 'u' :: a :: b :: c :: d :: cs => (scalar? [a, b, c, d]).map (·, cs)
  | 'U' :: a :: b :: c :: d :: e :: f :: g :: h :: cs =>
    (scalar? [a, b, c, d, e, f, g, h]).map (·, cs)
  | _ => none

theorem length_escape_lt {cs rest : List Char} {c : Char} (h : escape cs = some (c, rest)) :
    rest.length < cs.length := by
  unfold escape at h
  split at h
  case h_8 | h_9 =>
    obtain ⟨_, _, eq⟩ := Option.map_eq_some_iff.1 h
    obtain ⟨-, rfl⟩ := Prod.mk.inj eq
    simp
    omega
  all_goals simp_all

abbrev Scanned (α : Type) := Option (α × List Char)

def Scanned.push (c : Char) (s : Scanned (List Char)) : Scanned (List Char) :=
  s.map fun (text, rest) => (c :: text, rest)

def line (quote : Char) (escapes : Bool) : List Char → Scanned (List Char)
  | [] => none
  | c :: cs =>
    if c = quote then some ([], cs)
    else if c = '\\' ∧ escapes then
      match h : escape cs with
      | none => none
      | some (c, rest) =>
        have := length_escape_lt h
        (line quote escapes rest).push c
    else if isPlain c then (line quote escapes cs).push c
    else none
termination_by cs => cs.length

/-- Reads a string of several lines. `quotes` were read last, up to five of which can end the
string; while `joining`, spaces and line breaks are passed over. -/
def lines (quote : Char) (escapes : Bool) (quotes : Nat) (joining : Bool) :
    List Char → Scanned (List Char)
  | [] => if 3 ≤ quotes then some (List.replicate (quotes - 3) quote, []) else none
  | c :: cs =>
    if c = quote then
      if quotes = 5 then none else lines quote escapes (quotes + 1) false cs
    else if 3 ≤ quotes then some (List.replicate (quotes - 3) quote, c :: cs)
    else
      let rest :=
        if c = '\\' ∧ escapes then
          if (afterBreak (dropSpaces cs)).isSome then lines quote escapes 0 true cs
          else
            match h : escape cs with
            | none => none
            | some (c, rest) =>
              have := length_escape_lt h
              Scanned.push c (lines quote escapes 0 false rest)
        else if c = '\r' then
          if cs.head? = some '\n' then lines quote escapes 0 joining cs else none
        else if c = '\n' then
          if joining then lines quote escapes 0 true cs
          else Scanned.push c (lines quote escapes 0 false cs)
        else if joining ∧ isSpace c then lines quote escapes 0 true cs
        else if isPlain c then Scanned.push c (lines quote escapes 0 false cs)
        else none
      rest.map fun (text, rest) => (List.replicate quotes quote ++ text, rest)
termination_by cs => cs.length

/-- A line break right behind the opening quotes does not count. -/
def afterOpening (cs : List Char) : List Char := (afterBreak cs).getD cs

inductive Value
  | string (s : String)
  | bool (b : Bool)
deriving DecidableEq, Repr

def stringValue (s : Scanned (List Char)) : Scanned Value :=
  s.map fun (text, rest) => (.string (String.ofList text), rest)

def value : List Char → Scanned Value
  | '"' :: '"' :: '"' :: cs => stringValue (lines '"' true 0 false (afterOpening cs))
  | '"' :: cs => stringValue (line '"' true cs)
  | '\x27' :: '\x27' :: '\x27' :: cs => stringValue (lines '\x27' false 0 false (afterOpening cs))
  | '\x27' :: cs => stringValue (line '\x27' false cs)
  | 't' :: 'r' :: 'u' :: 'e' :: cs => some (.bool true, cs)
  | 'f' :: 'a' :: 'l' :: 's' :: 'e' :: cs => some (.bool false, cs)
  | _ => none

def isBare (c : Char) : Bool := c.isAlphanum || c == '_' || c == '-'

def key : List Char → Scanned (List Char)
  | '"' :: cs => line '"' true cs
  | '\x27' :: cs => line '\x27' false cs
  | cs =>
    let bare := cs.takeWhile isBare
    if bare.isEmpty then none else some (bare, cs.dropWhile isBare)

def entry (cs : List Char) : Option ((String × Value) × List Char) := do
  let (name, rest) ← key (dropSpaces cs)
  match dropSpaces rest with
  | '=' :: rest =>
    let (v, rest) ← value (dropSpaces rest)
    return ((String.ofList name, v), ← afterLine rest)
  | _ => none

def entriesIn (fuel : Nat) (cs : List Char) : Option (List (String × Value)) :=
  match fuel, cs with
  | _, [] => some []
  | 0, _ :: _ => none
  | fuel + 1, cs =>
    match afterLine cs with
    | some rest => entriesIn fuel rest
    | none => do
      let (e, rest) ← entry cs
      return e :: (← entriesIn fuel rest)

/-- The settings of a text, in order; a text has no more lines than characters. -/
def entries (text : String) : Option (List (String × Value)) :=
  let cs :=
    match text.toList with
    | '\ufeff' :: cs => cs
    | cs => cs
  entriesIn cs.length cs

end Toml

namespace Config

/-- Adds a setting that is known, of the right type and not there already. -/
def Settings.add (s : Settings) : String × Toml.Value → Option Settings
  | ("profile", .string v) => if s.profile.isNone then some { s with profile := v } else none
  | ("path-dialect", .string v) =>
    if s.pathDialect.isNone then some { s with pathDialect := v } else none
  | ("naming", .string v) => if s.naming.isNone then some { s with naming := v } else none
  | ("strip-nullable-variants", .bool v) =>
    if s.stripNullableVariants.isNone then some { s with stripNullableVariants := v } else none
  | _ => none

def Settings.ofToml (text : String) : Option Settings :=
  (Toml.entries text).bind fun entries => entries.foldlM Settings.add {}

def ofToml (text : String) : Except Failure Config :=
  match Settings.ofToml text with
  | some settings => ofSettings settings
  | none => .error .malformed

inductive File
  | missing
  | directory
  | bytes (content : ByteArray)

def load : File → Except Failure Config
  | .missing => .error (.unreadable .notFound)
  | .directory => .error (.unreadable .isDirectory)
  | .bytes content =>
    match String.fromUTF8? content with
    | some text => ofToml text
    | none => .error (.unreadable .notUtf8)

end Config

end ApiModel
