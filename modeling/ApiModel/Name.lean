import ApiModel.Text.Casing

/-!
Names and their spellings. A source name is any text; `camelCase`, `kebabCase` and `snakeCase`
respell it, and `identifier` makes an identifier of the generated languages out of it.
-/

namespace ApiModel

/-- Cuts a list at every element that satisfies `p`; the pieces may be empty. -/
def splitAtEach {α : Type} (p : α → Bool) : List α → List (List α)
  | [] => [[]]
  | a :: as =>
    if p a then [] :: splitAtEach p as
    else
      match splitAtEach p as with
      | [] => [[a]]
      | piece :: pieces => (a :: piece) :: pieces

theorem splitAtEach_ne_nil {α : Type} (p : α → Bool) (l : List α) : splitAtEach p l ≠ [] := by
  cases l with
  | nil => simp [splitAtEach]
  | cons a as =>
    simp only [splitAtEach]
    split
    · simp
    · split <;> simp

theorem flatten_splitAtEach {α : Type} (p : α → Bool) (l : List α) :
    (splitAtEach p l).flatten = l.filter (!p ·) := by
  induction l with
  | nil => rfl
  | cons a as ih =>
    rw [splitAtEach]
    cases hp : p a with
    | true => simp [hp, ih]
    | false =>
      cases hs : splitAtEach p as with
      | nil => exact absurd hs (splitAtEach_ne_nil p as)
      | cons piece pieces => simpa [hp, hs] using ih

namespace Name

def isSeparator (c : Char) : Bool := c == '_' || c == '-' || c == '.' || c == ' '

def words (s : List Char) : List (List Char) :=
  (splitAtEach isSeparator s).filter (!·.isEmpty)

def camelCase (s : List Char) : List Char :=
  match words s with
  | [] => []
  | first :: rest => Casing.decapitalize first ++ rest.flatMap Casing.capitalize

def snakeCase : List Char → List Char
  | [] => []
  | first :: rest =>
    first.toLower :: rest.flatMap fun c => if c.isUpper then ['_', c.toLower] else [c]

def startsWord (before : Option Char) (c : Char) (after : Option Char) : Bool :=
  c.isUpper && before.any fun b =>
    b.isLower || b.isDigit || (b.isUpper && after.any Char.isLower)

/-- `before` is the character read last and `written` the one written last, if there is one. -/
def kebabFrom (before written : Option Char) : List Char → List Char
  | [] => []
  | c :: cs =>
    if isSeparator c then
      if written.isNone || written == some '-' then kebabFrom (some c) written cs
      else '-' :: kebabFrom (some c) (some '-') cs
    else
      let rest := c.toLower :: kebabFrom (some c) (some c.toLower) cs
      if startsWord before c cs.head? && written != some '-' then '-' :: rest else rest

def kebabCase (s : List Char) : List Char := kebabFrom none none s

def reserved : List String := [
  "break", "case", "catch", "class", "const", "continue", "debugger", "default", "delete", "do",
  "else", "enum", "export", "extends", "false", "finally", "for", "function", "if", "import", "in",
  "instanceof", "new", "null", "return", "super", "switch", "this", "throw", "true", "try",
  "typeof", "var", "void", "while", "with", "yield", "let", "static", "implements", "interface",
  "package", "private", "protected", "public", "await", "async", "object", "string", "base",
  "namespace"]

def isReserved (s : List Char) : Bool := reserved.contains (String.ofList s)

/-- Names in capitals and underscores are constants and keep their spelling. -/
def isConstant (s : List Char) : Bool :=
  !s.isEmpty && s.all fun c => c.isUpper || c == '_'

def identifier (s : List Char) : List Char :=
  let spelled := if isConstant s then s else camelCase s
  if spelled.isEmpty then "_empty".toList
  else if spelled.head?.any Char.isDigit || isReserved spelled then '_' :: spelled
  else spelled

end Name

end ApiModel
