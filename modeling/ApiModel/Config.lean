/-!
What a run can be told: how hierarchies are shown, which syntax paths are written in, how model
files are named, and whether `Null` alternatives are dropped. Each of the three selectors is chosen
by its text; any other text is refused.
-/

namespace ApiModel

inductive Profile
  /-- Subtypes extend their base. -/
  | classical
  /-- Subtypes hold every member of their base and carry a literal tag. -/
  | taggedUnion
deriving DecidableEq, Repr, Inhabited

inductive PathDialect
  | typescript
  | typescriptPlain
  | csharp
deriving DecidableEq, Repr, Inhabited

inductive Naming
  | camelCase
  | kebabCase
deriving DecidableEq, Repr, Inhabited

namespace Profile

def all : List Profile := [classical, taggedUnion]

def text : Profile → String
  | classical => "classical"
  | taggedUnion => "tagged-union"

def ofText? (s : String) : Option Profile := all.find? (·.text == s)

def isTaggedUnion (p : Profile) : Bool := p == taggedUnion

@[simp] theorem ofText?_text (p : Profile) : ofText? p.text = some p := by cases p <;> rfl

end Profile

namespace PathDialect

def all : List PathDialect := [typescript, typescriptPlain, csharp]

def text : PathDialect → String
  | typescript => "typescript"
  | typescriptPlain => "typescript-plain"
  | csharp => "csharp"

def ofText? (s : String) : Option PathDialect := all.find? (·.text == s)

@[simp] theorem ofText?_text (d : PathDialect) : ofText? d.text = some d := by cases d <;> rfl

end PathDialect

namespace Naming

def all : List Naming := [camelCase, kebabCase]

def text : Naming → String
  | camelCase => "camelCase"
  | kebabCase => "kebab-case"

def ofText? (s : String) : Option Naming := all.find? (·.text == s)

@[simp] theorem ofText?_text (n : Naming) : ofText? n.text = some n := by cases n <;> rfl

end Naming

structure Config where
  profile : Profile := .classical
  pathDialect : PathDialect := .typescript
  naming : Naming := .camelCase
  stripNullableVariants : Bool := true
deriving DecidableEq, Repr

namespace Config

instance : Inhabited Config := ⟨{}⟩

def stripsNull (c : Config) : Bool := c.stripNullableVariants || c.profile.isTaggedUnion

inductive Unreadable
  | notFound
  | isDirectory
  | notUtf8
deriving DecidableEq, Repr

inductive Failure
  | invalidProfile (value : String)
  | invalidPathDialect (value : String)
  | invalidNaming (value : String)
  | malformed
  | unreadable (why : Unreadable)
deriving DecidableEq, Repr

namespace Failure

def alternatives (texts : List String) : String :=
  ", ".intercalate (texts.map fun t => "'" ++ t ++ "'")

def refusal (what value : String) (texts : List String) : String :=
  "Invalid " ++ what ++ " '" ++ value ++ "'. Must be one of " ++ alternatives texts ++ "."

def message? : Failure → Option String
  | invalidProfile v => some (refusal "target profile" v (Profile.all.map Profile.text))
  | invalidPathDialect v =>
    some (refusal "path dialect" v (PathDialect.all.map PathDialect.text))
  | invalidNaming v => some (refusal "naming convention" v (Naming.all.map Naming.text))
  | malformed => none
  | unreadable _ => none

end Failure

def readProfile (s : String) : Except Failure Profile :=
  match Profile.ofText? s with
  | some p => .ok p
  | none => .error (.invalidProfile s)

def readPathDialect (s : String) : Except Failure PathDialect :=
  match PathDialect.ofText? s with
  | some d => .ok d
  | none => .error (.invalidPathDialect s)

def readNaming (s : String) : Except Failure Naming :=
  match Naming.ofText? s with
  | some n => .ok n
  | none => .error (.invalidNaming s)

/-- A configuration as written: the settings that are given, selectors still as text. -/
structure Settings where
  profile : Option String := none
  pathDialect : Option String := none
  naming : Option String := none
  stripNullableVariants : Option Bool := none
deriving DecidableEq, Repr

def readOr {α : Type} (read : String → Except Failure α) (fallback : α) :
    Option String → Except Failure α
  | none => .ok fallback
  | some s => read s

/-- The first bad selector, in the order of the fields, decides the failure. -/
def ofSettings (s : Settings) : Except Failure Config := do
  let fallback : Config := {}
  let profile ← readOr readProfile fallback.profile s.profile
  let pathDialect ← readOr readPathDialect fallback.pathDialect s.pathDialect
  let naming ← readOr readNaming fallback.naming s.naming
  return {
    profile, pathDialect, naming
    stripNullableVariants := s.stripNullableVariants.getD fallback.stripNullableVariants }

end Config

end ApiModel
