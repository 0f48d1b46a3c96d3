import Mathlib.Data.List.TakeWhile
import ApiModel.PathTemplate
import ApiModel.Proofs.Name
import ApiModel.Proofs.Text.Quoted

/-! Calls of `encodeParam` as the generated code reads them. Name, data type and data format of a
parameter are escaped in the call, the style is not: only a style that needs no escaping is read
back. No style makes the calls of two parameters the same text, as what follows the style can be
told from the right. -/

namespace ApiModel

namespace PathDialect

theorem toList_literal (s : String) :
    (literal s).toList = '"' :: (escapeLiteral s.toList ++ ['"']) := by
  simp [literal]

theorem getLast?_literal (s : String) : (literal s).toList.getLast? = some '"' := by
  rw [toList_literal, ← List.cons_append, List.getLast?_concat]

end PathDialect

/-- Reads from the front of code, which it leaves at what comes next. -/
abbrev CodeReader := StateT (List Char) Option

namespace CodeReader

def text (s : String) : CodeReader Unit := fun code =>
  (code.dropPrefix? s.toList).map ((), ·)

def literal : CodeReader String := do
  text "\""
  String.ofList <$> (readLiteral : CodeReader (List Char))

def word : CodeReader String := fun code =>
  some (String.ofList (code.takeWhile (IsWordChar ·)), code.dropWhile (IsWordChar ·))

def boolean : CodeReader Bool :=
  (do text "true"; return true) <|> (do text "false"; return false)

def literal? : CodeReader (Option String) :=
  (do text "undefined"; return none) <|> some <$> literal

variable {rest : List Char}

theorem text_run_append (s : String) (rest : List Char) :
    (text s).run (s.toList ++ rest) = some ((), rest) := by
  have dropped : (s.toList ++ rest).dropPrefix? s.toList = some rest := by
    simp [List.dropPrefix?_eq_some_iff]
  show ((s.toList ++ rest).dropPrefix? s.toList).map _ = _
  rw [dropped]
  rfl

theorem literal_run_cons (s : List Char) :
    literal.run ('"' :: s) = (readLiteral s).map fun (s, rest) => (String.ofList s, rest) := by
  have opened : (text "\"").run ('"' :: s) = some ((), s) := text_run_append "\"" s
  rw [literal, StateT.run_bind, opened]
  show (readLiteral s).bind _ = _
  rw [Option.map_eq_bind]
  rfl

theorem literal_run_append (s : String) (rest : List Char) :
    literal.run ((PathDialect.literal s).toList ++ rest) = some (s, rest) := by
  have read := (spells_escapeLiteral s.toList).readLiteral_append rest
  rw [PathDialect.toList_literal, List.cons_append, List.append_assoc, List.singleton_append,
    literal_run_cons, read]
  exact congrArg (fun s => some (s, rest)) String.ofList_toList

theorem word_run_append {identifier : String} (h : IsWord identifier.toList)
    (stop : ∀ c ∈ rest.head?, ¬ IsWordChar c) :
    word.run (identifier.toList ++ rest) = some (identifier, rest) := by
  have all : ∀ c ∈ identifier.toList, decide (IsWordChar c) = true :=
    fun c hc => decide_eq_true (h c hc)
  have left : rest.takeWhile (IsWordChar ·) = [] ∧ rest.dropWhile (IsWordChar ·) = rest := by
    cases rest with
    | nil => exact ⟨rfl, rfl⟩
    | cons c rest =>
      have stops : ¬ decide (IsWordChar c) = true := by simpa using stop c rfl
      exact ⟨List.takeWhile_cons_of_neg stops, List.dropWhile_cons_of_neg stops⟩
  show some _ = _
  rw [List.takeWhile_append_of_pos all, List.dropWhile_append_of_pos all, left.1, left.2,
    List.append_nil, String.ofList_toList]

theorem boolean_run_append (b : Bool) (rest : List Char) :
    boolean.run ((if b then "true" else "false").toList ++ rest) = some (b, rest) := by
  unfold boolean
  cases b with
  | true =>
    rw [if_pos rfl, StateT.run_orElse, StateT.run_bind, text_run_append]
    rfl
  | false =>
    have other : (text "true").run ("false".toList ++ rest) = none := rfl
    rw [if_neg Bool.false_ne_true, StateT.run_orElse, StateT.run_bind, other, StateT.run_bind,
      text_run_append]
    rfl

theorem literal?_run_append (s : Option String) (rest : List Char) :
    literal?.run (((s.map PathDialect.literal).getD "undefined").toList ++ rest) =
      some (s, rest) := by
  unfold literal?
  cases s with
  | none =>
    rw [Option.map_none, Option.getD_none, StateT.run_orElse, StateT.run_bind, text_run_append]
    rfl
  | some s =>
    have other : (text "undefined").run ((PathDialect.literal s).toList ++ rest) = none := by
      rw [PathDialect.toList_literal]
      rfl
    rw [Option.map_some, Option.getD_some, StateT.run_orElse, StateT.run_bind, other,
      StateT.run_map, literal_run_append]
    rfl

end CodeReader

/-- What a call of `encodeParam` says about a parameter. -/
@[ext]
structure EncodeCall where
  name : String
  identifier : String
  style : String
  explode : Bool
  dataType : String
  dataFormat : Option String
deriving DecidableEq

namespace EncodeCall

open CodeReader

def of (p : Parameter) : EncodeCall where
  name := p.name
  identifier := p.derivedIdentifier
  style := p.style.getD "simple"
  explode := p.explode.getD false
  dataType := p.dataType
  dataFormat := p.dataFormat

def target : CodeReader (String × String) := do
  text "$\x7bencodeParam(\x7bname: "
  let name ← literal
  text ", value: "
  let identifier ← word
  text ", in: \"path\", style: "
  return (name, identifier)

def options : CodeReader (Bool × String × Option String) := do
  text ", explode: "
  let explode ← boolean
  text ", dataType: "
  let dataType ← literal
  text ", dataFormat: "
  let dataFormat ← literal?
  text "\x7d)\x7d"
  return (explode, dataType, dataFormat)

def reader : CodeReader EncodeCall := do
  let (name, identifier) ← target
  let style ← literal
  let (explode, dataType, dataFormat) ← options
  return { name, identifier, style, explode, dataType, dataFormat }

/-! ### What is rendered -/

variable {c d : EncodeCall} {p : Parameter} {rest : List Char}

def before (c : EncodeCall) : List Char :=
  "$\x7bencodeParam(\x7bname: ".toList ++ (PathDialect.literal c.name).toList ++
    ", value: ".toList ++ c.identifier.toList ++ ", in: \"path\", style: ".toList

def after (c : EncodeCall) : List Char :=
  ", explode: ".toList ++ (if c.explode then "true" else "false").toList ++
    ", dataType: ".toList ++ (PathDialect.literal c.dataType).toList ++
    ", dataFormat: ".toList ++ ((c.dataFormat.map PathDialect.literal).getD "undefined").toList ++
    "\x7d)\x7d".toList

def source (c : EncodeCall) : List Char :=
  c.before ++ '"' :: (c.style.toList ++ '"' :: c.after)

theorem toList_interpolation (p : Parameter) :
    (PathDialect.typescript.interpolation p).toList = (of p).source := by
  have style : ", in: \"path\", style: \"".toList = ", in: \"path\", style: ".toList ++ ['"'] := by
    decide
  have explode : "\", explode: ".toList = '"' :: ", explode: ".toList := by decide
  unfold PathDialect.interpolation source before after of
  simp only [String.toList_append, style, explode, List.append_assoc, List.cons_append,
    List.nil_append]

theorem target_run_append (h : IsWord c.identifier.toList) (rest : List Char) :
    target.run (c.before ++ rest) = some ((c.name, c.identifier), rest) := by
  have stop : ∀ x ∈ (", in: \"path\", style: ".toList ++ rest).head?, ¬ IsWordChar x := by
    intro x hx
    cases hx
    decide
  unfold target before
  simp only [List.append_assoc, StateT.run_bind, text_run_append, literal_run_append,
    word_run_append h stop, Option.bind_eq_bind, Option.bind_some]
  rfl

theorem options_run_append (c : EncodeCall) (rest : List Char) :
    options.run (c.after ++ rest) = some ((c.explode, c.dataType, c.dataFormat), rest) := by
  unfold options after
  simp only [List.append_assoc, StateT.run_bind, text_run_append, boolean_run_append,
    literal_run_append, literal?_run_append, Option.bind_eq_bind, Option.bind_some]
  rfl

theorem reader_run_append (h : IsWord c.identifier.toList) (s : List Char) :
    reader.run (c.before ++ '"' :: s) =
      (readLiteral s).bind fun style => (options.run style.2).map fun last =>
        ({ c with
            style := String.ofList style.1
            explode := last.1.1
            dataType := last.1.2.1
            dataFormat := last.1.2.2 }, last.2) := by
  unfold reader
  simp only [StateT.run_bind, target_run_append h, literal_run_cons, Option.bind_eq_bind,
    Option.bind_some, Option.bind_map]
  refine congrArg _ (funext fun style => ?_)
  rw [Option.map_eq_bind]
  rfl

theorem reader_run_source_iff (h : IsWord c.identifier.toList) :
    reader.run c.source = some (c, []) ↔ IsPlain c.style.toList := by
  rw [source, reader_run_append h]
  constructor
  · intro read
    obtain ⟨⟨style, code⟩, found, rest⟩ := Option.bind_eq_some_iff.1 read
    obtain ⟨last, _, eq⟩ := Option.map_eq_some_iff.1 rest
    have same : String.ofList style = c.style := congrArg (·.1.style) eq
    rw [← same, String.toList_ofList] at found ⊢
    exact isPlain_of_readLiteral_append found
  · intro plain
    have all := options_run_append c []
    rw [List.append_nil] at all
    rw [(spells_self_iff.2 plain).readLiteral_append, Option.bind_some, all, Option.map_some,
      String.ofList_toList]

/-! ### From the right -/

variable {x y : List Char}

theorem eq_of_append_literal {s t : String}
    (h : x ++ [' '] ++ (PathDialect.literal s).toList =
      y ++ [' '] ++ (PathDialect.literal t).toList) : x = y ∧ s = t := by
  have inner : (x ++ ' ' :: '"' :: escapeLiteral s.toList) ++ ['"'] =
      (y ++ ' ' :: '"' :: escapeLiteral t.toList) ++ ['"'] := by
    simpa [PathDialect.toList_literal] using h
  obtain ⟨before, text⟩ := eq_of_append_escapeLiteral (List.append_cancel_right inner)
  exact ⟨before, String.toList_injective text⟩

theorem eq_of_append_literal? {s t : Option String}
    (h : x ++ [' '] ++ ((s.map PathDialect.literal).getD "undefined").toList =
      y ++ [' '] ++ ((t.map PathDialect.literal).getD "undefined").toList) : x = y ∧ s = t := by
  have last := congrArg List.getLast? h
  cases s with
  | none =>
    cases t with
    | none => exact ⟨List.append_cancel_right (List.append_cancel_right h), rfl⟩
    | some t => simp [List.getLast?_cons, PathDialect.getLast?_literal] at last
  | some s =>
    cases t with
    | none => simp [List.getLast?_cons, PathDialect.getLast?_literal] at last
    | some t => exact (eq_of_append_literal h).imp_right (congrArg some)

theorem eq_of_append_boolean {a b : Bool}
    (h : x ++ (if a then "true" else "false").toList =
      y ++ (if b then "true" else "false").toList) : x = y ∧ a = b := by
  have ends := congrArg List.reverse h
  cases a with
  | true =>
    cases b with
    | true => exact ⟨List.append_cancel_right h, rfl⟩
    | false => simp at ends
  | false =>
    cases b with
    | true => simp at ends
    | false => exact ⟨List.append_cancel_right h, rfl⟩

theorem eq_of_append_after (h : x ++ c.after = y ++ d.after) :
    x = y ∧ c.explode = d.explode ∧ c.dataType = d.dataType ∧ c.dataFormat = d.dataFormat := by
  have beforeType : ", dataType: ".toList = ", dataType:".toList ++ [' '] := by decide
  have beforeFormat : ", dataFormat: ".toList = ", dataFormat:".toList ++ [' '] := by decide
  unfold after at h
  simp only [beforeType, beforeFormat, ← List.append_assoc] at h
  obtain ⟨h, dataFormat⟩ := eq_of_append_literal? (List.append_cancel_right h)
  obtain ⟨h, dataType⟩ := eq_of_append_literal (List.append_cancel_right h)
  obtain ⟨h, explode⟩ := eq_of_append_boolean (List.append_cancel_right h)
  exact ⟨List.append_cancel_right h, explode, dataType, dataFormat⟩

theorem eq_of_source (hc : IsWord c.identifier.toList) (hd : IsWord d.identifier.toList)
    (h : c.source = d.source) : c = d := by
  -- From the left the calls are read up to the style; where that ends is seen from the right only.
  have read := target_run_append hd ('"' :: (d.style.toList ++ '"' :: d.after))
  rw [← source, ← h, source, target_run_append hc, Option.some_inj, Prod.mk.injEq,
    Prod.mk.injEq] at read
  obtain ⟨⟨name, identifier⟩, tail⟩ := read
  have styled := (List.cons_eq_cons.1 tail).2
  rw [List.append_cons c.style.toList, List.append_cons d.style.toList] at styled
  obtain ⟨style, explode, dataType, dataFormat⟩ := eq_of_append_after styled
  exact EncodeCall.ext name identifier (String.toList_injective (List.append_cancel_right style))
    explode dataType dataFormat

/-- The call of a parameter is read back if its style needs no escaping, and only then; calls of
other parameters are other texts, whatever the styles are. -/
theorem reader_run_interpolation (word : IsWord p.derivedIdentifier.toList) :
    (reader.run (PathDialect.typescript.interpolation p).toList = some (of p, []) ↔
      IsPlain (of p).style.toList) ∧
      ∀ p' : Parameter, IsWord p'.derivedIdentifier.toList →
        PathDialect.typescript.interpolation p' = PathDialect.typescript.interpolation p →
          of p' = of p := by
  rw [toList_interpolation]
  refine ⟨reader_run_source_iff word, fun p' word' eq => eq_of_source word' word ?_⟩
  rw [← toList_interpolation, eq, toList_interpolation]

theorem reader_run_interpolation_quotes :
    let p : Parameter := { Parameter.plain "pet\"Id\\" .path "a\", b" with
      identifier := "petId"
      dataFormat := some "\\" }
    let q : Parameter := { p with style := some "simple", explode := some false }
    reader.run (PathDialect.typescript.interpolation p).toList = some (of p, []) ∧
      PathDialect.typescript.interpolation q = PathDialect.typescript.interpolation p ∧
      of q = of p := by
  intro p q
  obtain ⟨read, unique⟩ := reader_run_interpolation (p := p) (by decide)
  have same : PathDialect.typescript.interpolation q = PathDialect.typescript.interpolation p := by
    decide +kernel
  exact ⟨read.2 (by decide), same, unique q (by decide) same⟩

/-- A quote in the style ends its literal, and what is left is no call. -/
theorem reader_run_interpolation_quotedStyle :
    let p : Parameter := { Parameter.plain "petId" .path "number" with style := some "a\"b" }
    IsWord p.derivedIdentifier.toList ∧
      PathDialect.typescript.interpolation p =
        "$\x7bencodeParam(\x7bname: \"petId\", value: petId, in: \"path\", style: \"a\"b\", " ++
          "explode: false, dataType: \"number\", dataFormat: undefined\x7d)\x7d" ∧
      reader.run (PathDialect.typescript.interpolation p).toList = none := by
  decide +kernel

end EncodeCall

end ApiModel
