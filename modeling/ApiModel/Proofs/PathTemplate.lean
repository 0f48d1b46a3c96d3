import ApiModel.PathTemplate
import ApiModel.Proofs.Failure
import ApiModel.Proofs.Parameter

/-! Which paths can be expanded. They are text without braces and placeholders of declared
parameters, one piece after another; in any other path such pieces come first and then something
that no path can go on with, which is the failure. -/

namespace ApiModel.PathTemplate

open Parameter (Declares)

variable {path : String} {parameters : List Parameter} {declared : String → Prop} {f : Failure}

def Unbraced (s : List Char) : Prop := '{' ∉ s ∧ '}' ∉ s

theorem unbraced_nil : Unbraced [] := ⟨List.not_mem_nil, List.not_mem_nil⟩

theorem unbraced_cons {c : Char} {s : List Char} :
    Unbraced (c :: s) ↔ (c ≠ '{' ∧ c ≠ '}') ∧ Unbraced s := by
  simp only [Unbraced, List.mem_cons, not_or, ne_comm (a := c)]
  exact and_and_and_comm

theorem unbraced_append {s t : List Char} : Unbraced (s ++ t) ↔ Unbraced s ∧ Unbraced t := by
  simp only [Unbraced, List.mem_append, not_or]
  exact and_and_and_comm

def Piece.Fits (declared : String → Prop) : Piece → Prop
  | .text s => Unbraced s.toList
  | .placeholder name => Unbraced name.toList ∧ declared name

def Expands (declared : String → Prop) (cs : List Char) : Prop :=
  ∃ pieces : List Piece, (∀ p ∈ pieces, p.Fits declared) ∧ pieces.flatMap Piece.source = cs

/-- What no path can go on with, and how it fails. -/
inductive Blocked (path : String) (declared : String → Prop) : List Char → Failure → Prop
  | stray (more : List Char) : Blocked path declared ('}' :: more) (.unbalancedBraces path)
  | unclosed {raw : List Char} (plain : Unbraced raw) :
      Blocked path declared ('{' :: raw) (.unbalancedBraces path)
  | nested {raw : List Char} (plain : Unbraced raw) (more : List Char) :
      Blocked path declared ('{' :: raw ++ '{' :: more) (.unbalancedBraces path)
  | unknown {raw : List Char} (plain : Unbraced raw) (undeclared : ¬ declared (String.ofList raw))
      (more : List Char) :
      Blocked path declared ('{' :: raw ++ '}' :: more)
        (.unknownPathParameter path (String.ofList raw))

/-- After pieces that fit the path is blocked. -/
def FailsAt (path : String) (declared : String → Prop) (cs : List Char) (f : Failure) : Prop :=
  ∃ pieces : List Piece, (∀ p ∈ pieces, p.Fits declared) ∧
    ∃ rest, pieces.flatMap Piece.source ++ rest = cs ∧ Blocked path declared rest f

/-! ### The characters of a path, each as the scan comes to it -/

theorem Expands.cons {p : Piece} {cs : List Char} (fits : p.Fits declared)
    (h : Expands declared cs) : Expands declared (p.source ++ cs) := by
  obtain ⟨pieces, each, rfl⟩ := h
  exact ⟨p :: pieces, List.forall_mem_cons.2 ⟨fits, each⟩, List.flatMap_cons⟩

theorem FailsAt.cons {p : Piece} {cs : List Char} (fits : p.Fits declared)
    (h : FailsAt path declared cs f) : FailsAt path declared (p.source ++ cs) f := by
  obtain ⟨pieces, each, rest, rfl, blocked⟩ := h
  refine ⟨p :: pieces, List.forall_mem_cons.2 ⟨fits, each⟩, rest, ?_, blocked⟩
  rw [List.flatMap_cons, List.append_assoc]

theorem Blocked.failsAt {cs : List Char} (h : Blocked path declared cs f) :
    FailsAt path declared cs f := ⟨[], List.forall_mem_nil _, cs, rfl, h⟩

theorem fits_placeholder {raw : List Char} (plain : Unbraced raw)
    (known : declared (String.ofList raw)) :
    (Piece.placeholder (String.ofList raw)).Fits declared := by
  refine ⟨?_, known⟩
  rwa [String.toList_ofList]

theorem source_placeholder_append (raw cs : List Char) :
    (Piece.placeholder (String.ofList raw)).source ++ cs = '{' :: raw ++ '}' :: cs := by
  rw [Piece.source, String.toList_ofList, List.append_assoc, List.singleton_append]

/-- Outside of braces, and inside of them when `raw` was read there so far. -/
theorem expands_or_failsAt (path : String) (declared : String → Prop) (cs : List Char) :
    (Expands declared cs ∨ ∃ f, FailsAt path declared cs f) ∧
      ∀ raw, Unbraced raw → Expands declared ('{' :: raw ++ cs) ∨
        ∃ f, FailsAt path declared ('{' :: raw ++ cs) f := by
  have step {p : Piece} {cs : List Char} (fits : p.Fits declared)
      (h : Expands declared cs ∨ ∃ f, FailsAt path declared cs f) :
      Expands declared (p.source ++ cs) ∨ ∃ f, FailsAt path declared (p.source ++ cs) f :=
    h.imp (.cons fits) fun ⟨f, h⟩ => ⟨f, h.cons fits⟩
  induction cs with
  | nil =>
    refine ⟨.inl ⟨[], List.forall_mem_nil _, rfl⟩, fun raw plain => ?_⟩
    rw [List.append_nil]
    exact .inr ⟨_, (Blocked.unclosed plain).failsAt⟩
  | cons c cs ih =>
    obtain ⟨outside, inside⟩ := ih
    by_cases opens : c = '{'
    · subst opens
      refine ⟨inside [] unbraced_nil, fun raw plain => ?_⟩
      exact .inr ⟨_, (Blocked.nested plain cs).failsAt⟩
    · by_cases closes : c = '}'
      · subst closes
        refine ⟨.inr ⟨_, (Blocked.stray cs).failsAt⟩, fun raw plain => ?_⟩
        by_cases known : declared (String.ofList raw)
        · rw [← source_placeholder_append]
          exact step (fits_placeholder plain known) outside
        · exact .inr ⟨_, (Blocked.unknown plain known cs).failsAt⟩
      · have plain : Unbraced [c] := unbraced_cons.2 ⟨⟨opens, closes⟩, unbraced_nil⟩
        refine ⟨?_, fun raw free => ?_⟩
        · have text : (Piece.text (String.ofList [c])).Fits declared := by
            show Unbraced (String.ofList [c]).toList
            rwa [String.toList_ofList]
          have one := step text outside
          rwa [Piece.source, String.toList_ofList] at one
        · have longer := inside (raw ++ [c]) (unbraced_append.2 ⟨free, plain⟩)
          rwa [← List.cons_append, List.append_assoc] at longer

/-! ### The failure of a reading -/

def Reading.failure? (path : String) (parameters : List Parameter) (r : Reading) :
    Option Failure :=
  (r.pieces.findSome? fun p => Failure.of? (p.bind path parameters)).or
    (if r.balanced then none else some (.unbalancedBraces path))

theorem of?_parts (path : String) (parameters : List Parameter) :
    Failure.of? (parts path parameters) = (read path).failure? path parameters := by
  unfold parts Reading.failure?
  rw [← Failure.of?_mapM]
  dsimp only
  cases (read path).pieces.mapM (·.bind path parameters) with
  | error g => rfl
  | ok parts => cases (read path).balanced <;> rfl

theorem failure?_after (pieces : List Piece) (r : Reading) :
    (r.after pieces).failure? path parameters =
      (pieces.findSome? fun p => Failure.of? (p.bind path parameters)).or
        (r.failure? path parameters) := by
  unfold Reading.failure? Reading.after
  rw [List.findSome?_append, Option.or_assoc]

theorem findSome?_textPieces (s : List Char) :
    ((textPieces s).findSome? fun p => Failure.of? (p.bind path parameters)) = none := by
  unfold textPieces
  split <;> rfl

def scan (path : String) (parameters : List Parameter) (cs : List Char) : Option Failure :=
  (readFrom false [] cs).failure? path parameters

theorem scan_held (held cs : List Char) :
    (readFrom false held cs).failure? path parameters = scan path parameters cs := by
  unfold scan
  induction cs generalizing held with
  | nil => simp [readFrom, Reading.failure?, findSome?_textPieces]
  | cons c cs ih =>
    simp only [readFrom]
    split
    · simp [failure?_after, findSome?_textPieces]
    · split
      · simp [Reading.failure?, findSome?_textPieces]
      · rw [ih, ih [c]]

theorem readFrom_append {inside : Bool} {held s : List Char} (h : Unbraced s) (cs : List Char) :
    readFrom inside held (s ++ cs) = readFrom inside (s.reverse ++ held) cs := by
  induction s generalizing held with
  | nil => rfl
  | cons c s ih =>
    obtain ⟨⟨opens, closes⟩, rest⟩ := unbraced_cons.1 h
    rw [List.cons_append, readFrom, if_neg opens, if_neg closes, ih rest, List.reverse_cons,
      List.append_assoc]
    rfl

theorem scan_text {s : List Char} (h : Unbraced s) (cs : List Char) :
    scan path parameters (s ++ cs) = scan path parameters cs := by
  rw [scan, readFrom_append h, scan_held]

theorem scan_open {s : List Char} (h : Unbraced s) (cs : List Char) :
    scan path parameters ('{' :: s ++ cs) =
      (readFrom true s.reverse cs).failure? path parameters := by
  show ((readFrom true [] (s ++ cs)).after (textPieces [])).failure? path parameters = _
  rw [failure?_after, readFrom_append h, List.append_nil]
  rfl

theorem scan_placeholder {raw : List Char} (h : Unbraced raw) (cs : List Char) :
    scan path parameters ('{' :: raw ++ '}' :: cs) =
      (Failure.of? ((Piece.placeholder (String.ofList raw)).bind path parameters)).or
        (scan path parameters cs) := by
  rw [scan_open h]
  show ((readFrom false [] cs).after [.placeholder _]).failure? path parameters = _
  rw [failure?_after, List.reverse_reverse]
  simp [scan]

theorem scan_source {p : Piece} (h : p.Fits (Declares parameters)) (cs : List Char) :
    scan path parameters (p.source ++ cs) = scan path parameters cs := by
  cases p with
  | text s => exact scan_text h cs
  | placeholder name =>
    obtain ⟨plain, declared⟩ := h
    have bound : ∃ q, Parameter.meant? parameters name = some q := by
      rw [← Option.ne_none_iff_exists', ne_eq, Parameter.meant?_eq_none_iff]
      exact not_not_intro declared
    obtain ⟨q, hq⟩ := bound
    rw [Piece.source, List.append_assoc, List.singleton_append, scan_placeholder plain,
      String.ofList_toList, Piece.bind, hq]
    rfl

theorem scan_flatMap_source {pieces : List Piece}
    (h : ∀ p ∈ pieces, p.Fits (Declares parameters)) (cs : List Char) :
    scan path parameters (pieces.flatMap Piece.source ++ cs) = scan path parameters cs := by
  induction pieces with
  | nil => rfl
  | cons p pieces ih =>
    obtain ⟨fits, each⟩ := List.forall_mem_cons.1 h
    rw [List.flatMap_cons, List.append_assoc, scan_source fits, ih each]

theorem Blocked.scan_eq {cs : List Char} (h : Blocked path (Declares parameters) cs f) :
    scan path parameters cs = some f := by
  cases h with
  | stray more => rfl
  | unclosed plain =>
    rw [← List.append_nil (_ :: _), scan_open plain]
    rfl
  | nested plain more =>
    rw [scan_open plain]
    rfl
  | unknown plain undeclared more =>
    rw [scan_placeholder plain, Piece.bind, Parameter.meant?_eq_none_iff.2 undeclared]
    rfl

theorem FailsAt.scan_eq {cs : List Char} (h : FailsAt path (Declares parameters) cs f) :
    scan path parameters cs = some f := by
  obtain ⟨pieces, each, rest, rfl, blocked⟩ := h
  rw [scan_flatMap_source each, blocked.scan_eq]

theorem Expands.scan_eq {cs : List Char} (h : Expands (Declares parameters) cs) :
    scan path parameters cs = none := by
  obtain ⟨pieces, each, rfl⟩ := h
  rw [← List.append_nil (pieces.flatMap _), scan_flatMap_source each]
  rfl

theorem parts_judged (path : String) (parameters : List Parameter) :
    ((∃ found, parts path parameters = .ok found) ↔
        Expands (Declares parameters) path.toList) ∧
      ∀ f, parts path parameters = .error f ↔
        FailsAt path (Declares parameters) path.toList f := by
  have judged := (expands_or_failsAt path (Declares parameters) path.toList).1
  have scanned : Failure.of? (parts path parameters) = scan path parameters path.toList :=
    of?_parts path parameters
  refine Failure.judged judged (fun expands => ?_) fun f fails => ?_
  · rw [← Failure.of?_eq_none_iff, scanned, expands.scan_eq]
  · rw [← Failure.of?_eq_some_iff, scanned, fails.scan_eq]

end ApiModel.PathTemplate
