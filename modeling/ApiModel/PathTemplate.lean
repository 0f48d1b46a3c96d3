import ApiModel.Config
import ApiModel.Event
import ApiModel.Failure
import ApiModel.Parameter

/-!
Path templates: text with placeholders in braces, such as `/pets/{petId}`. A template is read into
pieces up to the first brace out of place; then each placeholder is bound to the parameter that it
means, and the bound parts are written in the syntax of a dialect.
-/

namespace ApiModel

namespace PathTemplate

inductive Piece
  | text (s : String)
  | placeholder (name : String)
deriving DecidableEq, Repr

def Piece.source : Piece → List Char
  | .text s => s.toList
  | .placeholder name => '{' :: name.toList ++ ['}']

/-- The pieces of a path before the first brace out of place, and whether there is none. -/
structure Reading where
  pieces : List Piece
  balanced : Bool
deriving DecidableEq, Repr

def textPieces (s : List Char) : List Piece := if s.isEmpty then [] else [.text (String.ofList s)]

def Reading.after (pieces : List Piece) (r : Reading) : Reading :=
  { r with pieces := pieces ++ r.pieces }

/-- Reads on inside or outside of braces; `held` is what was read there so far, backwards. -/
def readFrom (inside : Bool) (held : List Char) : List Char → Reading
  | [] =>
    if inside then { pieces := [], balanced := false }
    else { pieces := textPieces held.reverse, balanced := true }
  | c :: cs =>
    if c = '{' then
      if inside then { pieces := [], balanced := false }
      else (readFrom true [] cs).after (textPieces held.reverse)
    else if c = '}' then
      if inside then (readFrom false [] cs).after [.placeholder (String.ofList held.reverse)]
      else { pieces := textPieces held.reverse, balanced := false }
    else readFrom inside (c :: held) cs

def read (path : String) : Reading := readFrom false [] path.toList

theorem flatMap_source_textPieces (s : List Char) : (textPieces s).flatMap Piece.source = s := by
  cases s <;> simp [textPieces, Piece.source]

theorem flatMap_source_readFrom {inside : Bool} {held cs : List Char}
    (h : (readFrom inside held cs).balanced = true) :
    (readFrom inside held cs).pieces.flatMap Piece.source =
      (if inside then ['{'] else []) ++ held.reverse ++ cs := by
  fun_induction readFrom inside held cs
  case case1 => simp at h
  case case2 => simp_all [flatMap_source_textPieces]
  case case3 => simp at h
  case case4 ih => simp_all [Reading.after, flatMap_source_textPieces]
  case case5 ih => simp_all [Reading.after, Piece.source]
  case case6 => simp at h
  case case7 ih => simp_all

theorem flatMap_source_read {path : String} (h : (read path).balanced = true) :
    (read path).pieces.flatMap Piece.source = path.toList := by
  simpa [read] using flatMap_source_readFrom h

inductive Part
  | text (s : String)
  | value (parameter : Parameter)
deriving DecidableEq, Repr

def Piece.bind (path : String) (parameters : List Parameter) : Piece → Except Failure Part
  | .text s => .ok (.text s)
  | .placeholder name =>
    match Parameter.meant? parameters name with
    | some p => .ok (.value p)
    | none => .error (.unknownPathParameter path name)

/-- The parts of a path; of several problems the leftmost one is the failure. -/
def parts (path : String) (parameters : List Parameter) : Except Failure (List Part) := do
  let reading := read path
  let parts ← reading.pieces.mapM (·.bind path parameters)
  if reading.balanced then return parts else throw (.unbalancedBraces path)

end PathTemplate

namespace PathDialect

def escapes : PathDialect → Char → Bool
  | typescript, c | typescriptPlain, c => c == '\\' || c == '\x60' || c == '$'
  | csharp, c => c == '\\' || c == '"'

def static (d : PathDialect) (s : String) : String :=
  String.ofList (s.toList.flatMap fun c => if d.escapes c then ['\\', c] else [c])

def literal (s : String) : String :=
  "\"" ++ String.ofList (escapeLiteral s.toList) ++ "\""

def interpolation (d : PathDialect) (p : Parameter) : String :=
  match d with
  | typescript =>
    "$\x7bencodeParam(\x7bname: " ++ literal p.name ++ ", value: " ++ p.derivedIdentifier ++
      ", in: \"path\", style: \"" ++ p.style.getD "simple" ++ "\", explode: " ++
      (if p.explode.getD false then "true" else "false") ++
      ", dataType: " ++ literal p.dataType ++
      ", dataFormat: " ++ (p.dataFormat.map literal).getD "undefined" ++ "\x7d)\x7d"
  | typescriptPlain => "$\x7b" ++ p.derivedIdentifier ++ "\x7d"
  | csharp => "\x7bUri.EscapeDataString(" ++ p.derivedIdentifier ++ ".ToString())\x7d"

end PathDialect

namespace PathTemplate

inductive Segment
  | static (text : String)
  | parameter (identifier : String)
deriving DecidableEq, Repr

namespace Part

def segment : Part → Segment
  | text s => .static s
  | value p => .parameter p.derivedIdentifier

def render (d : PathDialect) : Part → String
  | text s => d.static s
  | value p => d.interpolation p

def parameterName? : Part → Option String
  | text _ => none
  | value p => some p.name

end Part

structure Expansion where
  segments : List Segment
  rendered : String
  /-- Names of the parameters used, each once, in order of first use. -/
  consumed : List String
deriving DecidableEq, Repr

def Expansion.ofParts (d : PathDialect) (parts : List Part) : Expansion where
  segments := parts.map Part.segment
  rendered := String.join (parts.map (·.render d))
  consumed := (parts.filterMap Part.parameterName?).eraseDups

def Expansion.isEncodable (e : Expansion) : Bool := !e.consumed.isEmpty

def expand (d : PathDialect) (parameters : List Parameter) (path : String) :
    Except Failure Expansion :=
  (parts path parameters).map (Expansion.ofParts d)

def events (d : PathDialect) (parameters : List Parameter) (path : String) : List Event :=
  match expand d parameters path with
  | .error _ => []
  | .ok e => [.pathExpanded path e.rendered]

end PathTemplate

end ApiModel
