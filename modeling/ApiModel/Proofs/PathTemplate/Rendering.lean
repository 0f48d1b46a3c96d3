import Mathlib.Data.List.TakeWhile
import ApiModel.Proofs.Name
import ApiModel.Proofs.PathTemplate.Expansion

/-! Rendered paths as the generated code reads them. In a string of the code a backslash makes the
next character literal and an interpolation stands for the value of an identifier; read that way, a
rendered path has the segments that it was rendered from, so it has no other meaning. -/

namespace ApiModel

namespace PathDialect

def opening : PathDialect → List Char
  | csharp => "\x7bUri.EscapeDataString(".toList
  | _ => "$\x7b".toList

def closing : PathDialect → List Char
  | csharp => ".ToString())".toList
  | _ => []

/-- What a string of the dialect cannot have for itself. -/
def special : PathDialect → List Char
  | csharp => ['\\', '"']
  | _ => ['\\', '\x60', '$']

def interpolated? (d : PathDialect) (code : List Char) : Option (List Char × List Char) := do
  let inner ← code.dropPrefix? d.opening
  let identifier ← (inner.takeWhile (· != '}')).dropSuffix? d.closing
  match inner.dropWhile (· != '}') with
  | [] => none
  | _ :: rest => some (identifier, rest)

variable {d : PathDialect} {code identifier rest : List Char}

theorem not_mem_closing (d : PathDialect) : '}' ∉ d.closing := by cases d <;> decide

theorem interpolated?_of_append (h : '}' ∉ identifier) (d : PathDialect) (rest : List Char) :
    d.interpolated? (d.opening ++ identifier ++ d.closing ++ '}' :: rest) =
      some (identifier, rest) := by
  have free : ∀ c ∈ identifier ++ d.closing, (c != '}') = true := by
    intro c hc
    rw [bne_iff_ne]
    rintro rfl
    exact (List.mem_append.1 hc).elim h d.not_mem_closing
  have inner : (d.opening ++ identifier ++ d.closing ++ '}' :: rest).dropPrefix? d.opening =
      some (identifier ++ d.closing ++ '}' :: rest) := by
    simp [List.dropPrefix?_eq_some_iff]
  have suffix : (identifier ++ d.closing).dropSuffix? d.closing = some identifier := by
    simp [List.dropSuffix?_eq_some_iff]
  rw [interpolated?, inner]
  simp only [Option.bind_eq_bind, Option.bind_some, List.takeWhile_append_of_pos free,
    List.dropWhile_append_of_pos free]
  simp [suffix]

theorem interpolated?_eq_some_iff : d.interpolated? code = some (identifier, rest) ↔
    code = d.opening ++ identifier ++ d.closing ++ '}' :: rest ∧ '}' ∉ identifier := by
  constructor
  · intro h
    obtain ⟨inner, prefixed, bound⟩ := Option.bind_eq_some_iff.1 h
    obtain ⟨before, suffixed, ends⟩ := Option.bind_eq_some_iff.1 bound
    obtain ⟨start, rfl, eq⟩ := List.dropPrefix?_eq_some_iff.1 prefixed
    obtain ⟨stop, taken, eq'⟩ := List.dropSuffix?_eq_some_iff.1 suffixed
    obtain rfl := eq_of_beq eq
    obtain rfl := eq_of_beq eq'
    split at ends
    next => cases ends
    next c rest left =>
      cases ends
      obtain rfl : c = '}' := by
        have stops := List.head?_dropWhile_not (· != '}') inner
        rw [left] at stops
        simpa using stops
      have free : '}' ∉ identifier := by
        intro mem
        have passed : '}' ∈ inner.takeWhile (· != '}') := taken ▸ List.mem_append_left _ mem
        exact absurd (List.mem_takeWhile_imp passed) (by decide)
      refine ⟨?_, free⟩
      rw [List.append_assoc (d.opening ++ _), List.append_assoc, ← List.append_assoc identifier,
        ← taken, ← left, List.takeWhile_append_dropWhile]
  · rintro ⟨rfl, free⟩
    exact interpolated?_of_append free d rest

theorem length_lt_of_interpolated? (h : d.interpolated? code = some (identifier, rest)) :
    rest.length < code.length := by
  obtain ⟨rfl, _⟩ := interpolated?_eq_some_iff.1 h
  simp only [List.length_append, List.length_cons]
  omega

end PathDialect

namespace PathTemplate

/-- How code in a string is read: character by character, with interpolations between. -/
inductive Token
  | plain (c : Char)
  | escaped (c : Char)
  | interpolated (identifier : List Char)
deriving DecidableEq

def tokens (d : PathDialect) (code : List Char) : List Token :=
  match h : d.interpolated? code with
  | some (identifier, rest) =>
    have := PathDialect.length_lt_of_interpolated? h
    .interpolated identifier :: tokens d rest
  | none =>
    match code with
    | [] => []
    | '\\' :: c :: rest => .escaped c :: tokens d rest
    | c :: rest => .plain c :: tokens d rest
termination_by code.length

def textSegments (s : List Char) : List Segment :=
  if s.isEmpty then [] else [.static (String.ofList s)]

/-- The segments that the tokens stand for, after the text in `held`. -/
def segmentsFrom (held : List Char) : List Token → List Segment
  | [] => textSegments held
  | .plain c :: tokens | .escaped c :: tokens => segmentsFrom (held ++ [c]) tokens
  | .interpolated identifier :: tokens =>
    textSegments held ++ .parameter (String.ofList identifier) :: segmentsFrom [] tokens

def segments (tokens : List Token) : List Segment := segmentsFrom [] tokens

/-! ### What is rendered -/

variable {d : PathDialect} {path : String} {parameters : List Parameter} {parts : List Part}
  {e : Expansion}

def Token.ofChar (d : PathDialect) (c : Char) : Token :=
  if d.escapes c then .escaped c else .plain c

def Part.tokens (d : PathDialect) : Part → List Token
  | text s => s.toList.map (Token.ofChar d)
  | value p => [.interpolated p.derivedIdentifier.toList]

theorem tokens_interpolated {identifier : List Char} (h : '}' ∉ identifier) (d : PathDialect)
    (rest : List Char) : tokens d (d.opening ++ identifier ++ d.closing ++ '}' :: rest) =
      .interpolated identifier :: tokens d rest := by
  have found := PathDialect.interpolated?_of_append h d rest
  rw [tokens.eq_def]
  split
  next eq =>
    rw [found, Option.some_inj, Prod.mk.injEq] at eq
    obtain ⟨rfl, rfl⟩ := eq
    rfl
  next eq =>
    rw [found] at eq
    cases eq

theorem interpolated?_of_char {c : Char} (brace : c ≠ '{') (d : PathDialect) (rest : List Char) :
    d.interpolated? ((if d.escapes c then ['\\', c] else [c]) ++ rest) = none := by
  have first : ∃ o more, d.opening = o :: more ∧ o ≠ '\\' ∧ (o = '{' ∨ d.escapes o = true) := by
    cases d
    case csharp => exact ⟨'{', _, rfl, by decide, .inl rfl⟩
    all_goals exact ⟨'$', _, rfl, by decide, .inr rfl⟩
  obtain ⟨o, more, opening, backslash, start⟩ := first
  rw [Option.eq_none_iff_forall_ne_some]
  rintro ⟨identifier, after⟩ found
  have code := (PathDialect.interpolated?_eq_some_iff.1 found).1
  rw [opening] at code
  split at code
  next => exact backslash (List.cons_eq_cons.1 code).1.symm
  next bare =>
    obtain rfl : c = o := (List.cons_eq_cons.1 code).1
    exact start.elim brace bare

theorem tokens_escaped {c : Char} {rest : List Char}
    (h : d.interpolated? ('\\' :: c :: rest) = none) :
    tokens d ('\\' :: c :: rest) = .escaped c :: tokens d rest := by
  rw [tokens.eq_def]
  split
  next eq => rw [h] at eq; cases eq
  next => rfl

theorem tokens_plain {c : Char} {rest : List Char} (h : d.interpolated? (c :: rest) = none)
    (backslash : c ≠ '\\') : tokens d (c :: rest) = .plain c :: tokens d rest := by
  rw [tokens.eq_def]
  split
  next eq => rw [h] at eq; cases eq
  next => split <;> simp_all

theorem tokens_char {c : Char} (brace : c ≠ '{') (d : PathDialect) (rest : List Char) :
    tokens d ((if d.escapes c then ['\\', c] else [c]) ++ rest) =
      .ofChar d c :: tokens d rest := by
  have single := interpolated?_of_char brace d rest
  unfold Token.ofChar
  split at single
  next escapes =>
    rw [if_pos escapes, if_pos escapes]
    exact tokens_escaped single
  next bare =>
    have backslash : c ≠ '\\' := by
      rintro rfl
      exact bare (by cases d <;> rfl)
    rw [if_neg bare, if_neg bare]
    exact tokens_plain single backslash

theorem tokens_static {s : String} (h : Unbraced s.toList) (d : PathDialect) (rest : List Char) :
    tokens d ((d.static s).toList ++ rest) = s.toList.map (Token.ofChar d) ++ tokens d rest := by
  rw [PathDialect.static, String.toList_ofList]
  generalize s.toList = cs at h
  induction cs with
  | nil => rfl
  | cons c cs ih =>
    obtain ⟨⟨brace, _⟩, plain⟩ := unbraced_cons.1 h
    rw [List.flatMap_cons, List.append_assoc, tokens_char brace, ih plain]
    rfl

theorem toList_interpolation (hd : d ≠ .typescript) (p : Parameter) :
    (d.interpolation p).toList = d.opening ++ p.derivedIdentifier.toList ++ d.closing ++ ['}'] := by
  cases d with
  | typescript => exact absurd rfl hd
  | typescriptPlain =>
    show ("$\x7b" ++ p.derivedIdentifier ++ "\x7d").toList = _
    rw [String.toList_append, String.toList_append]
    exact congrArg (· ++ ['}']) (List.append_nil _).symm
  | csharp =>
    have close : ".ToString())\x7d".toList = PathDialect.csharp.closing ++ ['}'] := by decide
    show ("\x7bUri.EscapeDataString(" ++ p.derivedIdentifier ++ ".ToString())\x7d").toList = _
    rw [String.toList_append, String.toList_append, close, ← List.append_assoc]
    rfl

/-- What a part has to be for its rendering to be read as it is meant. -/
def Part.Plain : Part → Prop
  | text s => s ≠ "" ∧ Unbraced s.toList
  | value p => '}' ∉ p.derivedIdentifier.toList

theorem tokens_render (hd : d ≠ .typescript) {part : Part} (h : part.Plain) (rest : List Char) :
    PathTemplate.tokens d ((part.render d).toList ++ rest) =
      part.tokens d ++ PathTemplate.tokens d rest := by
  cases part with
  | text s => exact tokens_static h.2 d rest
  | value p =>
    show PathTemplate.tokens d ((d.interpolation p).toList ++ rest) = _
    rw [toList_interpolation hd, List.append_assoc]
    exact tokens_interpolated h d rest

theorem tokens_flatMap_render (hd : d ≠ .typescript) (h : ∀ part ∈ parts, part.Plain) :
    tokens d (parts.flatMap fun part => (part.render d).toList) =
      parts.flatMap (Part.tokens d) := by
  induction parts with
  | nil =>
    rw [List.flatMap_nil, tokens.eq_def]
    cases d <;> rfl
  | cons part parts ih =>
    obtain ⟨plain, each⟩ := List.forall_mem_cons.1 h
    rw [List.flatMap_cons, List.flatMap_cons, tokens_render hd plain, ih each]

/-! ### Segments -/

theorem segmentsFrom_map_ofChar (d : PathDialect) (held s : List Char) (tokens : List Token) :
    segmentsFrom held (s.map (Token.ofChar d) ++ tokens) = segmentsFrom (held ++ s) tokens := by
  induction s generalizing held with
  | nil => rw [List.append_nil]; rfl
  | cons c s ih =>
    have one : segmentsFrom held (Token.ofChar d c :: (s.map (Token.ofChar d) ++ tokens)) =
        segmentsFrom (held ++ [c]) (s.map (Token.ofChar d) ++ tokens) := by
      unfold Token.ofChar
      split <;> rfl
    rw [List.map_cons, List.cons_append, one, ih, List.append_assoc]
    rfl

theorem segmentsFrom_flatMap_tokens (d : PathDialect) (held : List Char)
    (first : ∀ b ∈ (parts.map Part.isText).head?, b = false) :
    segmentsFrom held (parts.flatMap (Part.tokens d)) =
      textSegments held ++ segments (parts.flatMap (Part.tokens d)) := by
  cases parts with
  | nil => exact (List.append_nil _).symm
  | cons part parts =>
    cases part with
    | text s => cases first true rfl
    | value p => rfl

theorem segments_flatMap_tokens (d : PathDialect) (h : ∀ part ∈ parts, part.Plain)
    (apart : TextsApart (parts.map Part.isText)) :
    segments (parts.flatMap (Part.tokens d)) = parts.map Part.segment := by
  induction parts with
  | nil => rfl
  | cons part parts ih =>
    obtain ⟨plain, each⟩ := List.forall_mem_cons.1 h
    obtain ⟨next, rest⟩ := List.isChain_cons.1 apart
    cases part with
    | text s =>
      have first : ∀ b ∈ (parts.map Part.isText).head?, b = false := by
        intro b hb
        exact Bool.eq_false_iff.2 fun text => next b hb ⟨rfl, text⟩
      have own : textSegments s.toList = [.static s] := by
        rw [textSegments, if_neg (by simpa using plain.1), String.ofList_toList]
      rw [List.flatMap_cons, segments]
      show segmentsFrom [] (s.toList.map (Token.ofChar d) ++ _) = _
      rw [segmentsFrom_map_ofChar, segmentsFrom_flatMap_tokens d _ first, ih each rest]
      show textSegments s.toList ++ _ = _
      rw [own]
      rfl
    | value p =>
      show .parameter (String.ofList _) :: segments (parts.flatMap _) = _
      rw [ih each rest, String.ofList_toList]
      rfl

/-! ### Expansions -/

theorem not_mem_derivedIdentifier (plain : ∀ p ∈ parameters, '}' ∉ p.identifier.toList)
    {name : String} (unbraced : Unbraced name.toList) {p : Parameter}
    (meant : Parameter.meant? parameters name = some p) : '}' ∉ p.derivedIdentifier.toList := by
  have letter : ¬ IsLetter '}' := by decide
  obtain ⟨mem, named⟩ := Parameter.of_meant? meant
  have source : '}' ∉ p.name.toList := by
    rcases named with rfl | similar
    · exact unbraced.2
    · rw [Parameter.isSimilar, beq_iff_eq] at similar
      rw [← Name.mem_snakeCase_iff letter (by decide), similar,
        Name.mem_snakeCase_iff letter (by decide)]
      exact unbraced.2
  unfold Parameter.derivedIdentifier
  split
  next =>
    rw [String.toList_ofList]
    intro mem
    rcases Name.mem_of_mem_identifier mem with old | new | underscore
    · exact source old.1
    · exact letter new
    · exact absurd underscore (by decide)
  next => exact plain p mem

theorem plain_of_parts (plain : ∀ p ∈ parameters, '}' ∉ p.identifier.toList)
    (h : PathTemplate.parts path parameters = .ok parts) : ∀ part ∈ parts, part.Plain := by
  intro part mem
  obtain ⟨piece, hp, becomes⟩ := exists_piece (parts_eq_ok_iff.1 h).2 mem
  have unbraced := plain_read path piece hp
  cases becomes with
  | text s => exact unbraced
  | value meant => exact not_mem_derivedIdentifier plain unbraced meant

theorem tokens_rendered (hd : d ≠ .typescript) (h : ∀ part ∈ parts, part.Plain) :
    tokens d (Expansion.ofParts d parts).rendered.toList = parts.flatMap (Part.tokens d) := by
  show tokens d (String.join (parts.map (Part.render d))).toList = _
  rw [String.toList_join, List.flatMap_map, tokens_flatMap_render hd h]

theorem not_special_of_plain {c : Char} (mem : .plain c ∈ parts.flatMap (Part.tokens d)) :
    c ∉ d.special := by
  obtain ⟨part, _, mem⟩ := List.mem_flatMap.1 mem
  cases part with
  | value p => exact absurd (List.mem_singleton.1 mem) nofun
  | text s =>
    obtain ⟨b, _, eq⟩ := List.mem_map.1 mem
    unfold Token.ofChar at eq
    split at eq
    next => cases eq
    next bare =>
      cases eq
      cases d <;> simpa [PathDialect.special, PathDialect.escapes, or_assoc] using bare

/-- A rendered path is read as its segments and has nothing special outside of interpolations, so
that paths of other segments are rendered otherwise. -/
theorem segments_tokens_rendered (hd : d ≠ .typescript)
    (plain : ∀ p ∈ parameters, '}' ∉ p.identifier.toList)
    (h : expand d parameters path = .ok e) :
    segments (tokens d e.rendered.toList) = e.segments ∧
      (∀ c, .plain c ∈ tokens d e.rendered.toList → c ∉ d.special) ∧
      ∀ (others : List Parameter) (path' : String) (e' : Expansion),
        (∀ p ∈ others, '}' ∉ p.identifier.toList) → expand d others path' = .ok e' →
        e'.rendered = e.rendered → e'.segments = e.segments := by
  have read {l : List Parameter} {path : String} {e : Expansion}
      (plain : ∀ p ∈ l, '}' ∉ p.identifier.toList) (h : expand d l path = .ok e) :
      segments (tokens d e.rendered.toList) = e.segments ∧
        ∀ c, .plain c ∈ tokens d e.rendered.toList → c ∉ d.special := by
    obtain ⟨parts, bound, rfl⟩ := expand_eq_ok_iff.1 h
    have each := plain_of_parts plain bound
    have apart : TextsApart (parts.map Part.isText) :=
      map_isText_of_becomes (parts_eq_ok_iff.1 bound).2 ▸ textsApart_read path
    rw [tokens_rendered hd each]
    exact ⟨segments_flatMap_tokens d each apart, fun c => not_special_of_plain⟩
  obtain ⟨same, bare⟩ := read plain h
  refine ⟨same, bare, fun others path' e' plain' h' eq => ?_⟩
  rw [← same, ← (read plain' h').1, eq]

theorem segments_tokens_rendered_dollar :
    let derived : List Parameter := [.plain "user-id$" .path "string"]
    let given : List Parameter := [{ Parameter.plain "id" .path "string" with
      identifier := "userId$" }]
    let e : Expansion := {
      segments := [.static "/\\$", .parameter "userId$"]
      rendered := "/\\\\\\$$\x7buserId$\x7d"
      consumed := ["user-id$"] }
    expand .typescriptPlain derived "/\\$\x7buser-id$\x7d" = .ok e ∧
      segments (tokens .typescriptPlain e.rendered.toList) = e.segments ∧
      (∀ c, .plain c ∈ tokens .typescriptPlain e.rendered.toList →
        c ∉ PathDialect.typescriptPlain.special) ∧
      ∃ e', expand .typescriptPlain given "/\\$\x7bid\x7d" = .ok e' ∧
        e'.rendered = e.rendered ∧ e'.segments = e.segments := by
  intro derived given e
  have h : expand .typescriptPlain derived "/\\$\x7buser-id$\x7d" = .ok e := by decide +kernel
  obtain ⟨read, bare, unique⟩ := segments_tokens_rendered (by decide) (by decide) h
  let e' : Expansion := { e with consumed := ["id"] }
  have h' : expand .typescriptPlain given "/\\$\x7bid\x7d" = .ok e' := by decide +kernel
  exact ⟨h, read, bare, e', h', rfl, unique given _ e' (by decide) h' rfl⟩

end PathTemplate

end ApiModel
