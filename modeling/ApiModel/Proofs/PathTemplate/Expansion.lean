import ApiModel.Proofs.PathTemplate.Pieces

/-! What an expansion keeps of its path. Its segments are the path again once the placeholders are
put back for their parameters, and its parameters are those that the placeholders mean. -/

namespace ApiModel.PathTemplate

variable {d : PathDialect} {path : String} {parameters : List Parameter} {e : Expansion}
  {pieces : List Piece} {parts : List Part}

/-- `l` has each of the names that are used once, in the order in which they are used first. -/
structure InOrderOfFirstUse (used l : List String) : Prop where
  mem_iff : ∀ name, name ∈ l ↔ name ∈ used
  pairwise : l.Pairwise fun a b => used.idxOf a < used.idxOf b

theorem inOrderOfFirstUse_eraseDups (used : List String) :
    InOrderOfFirstUse used used.eraseDups := by
  refine ⟨fun _ => List.mem_eraseDups, ?_⟩
  induction used using List.reverseRecOn with
  | nil => exact .nil
  | append_singleton used name ih =>
    have before : used.eraseDups.Pairwise fun a b =>
        (used ++ [name]).idxOf a < (used ++ [name]).idxOf b := by
      refine ih.imp_of_mem fun {a b} ha hb lt => ?_
      rwa [List.idxOf_append_of_mem (List.mem_eraseDups.1 ha),
        List.idxOf_append_of_mem (List.mem_eraseDups.1 hb)]
    rw [List.eraseDups_append]
    by_cases known : name ∈ used
    · have repeated : [name].removeAll used = [] := by simpa [List.removeAll] using known
      rwa [repeated, List.eraseDups_nil, List.append_nil]
    · have new : [name].removeAll used = [name] := by simpa [List.removeAll] using known
      rw [new]
      refine List.pairwise_append.2 ⟨before, List.pairwise_singleton _ _, fun a ha b hb => ?_⟩
      obtain rfl : b = name := by simpa using hb
      rw [List.idxOf_append_of_mem (List.mem_eraseDups.1 ha), List.idxOf_append_of_notMem known]
      exact Nat.lt_add_right _ (List.idxOf_lt_length_of_mem (List.mem_eraseDups.1 ha))

namespace Segment

def isText : Segment → Bool
  | static _ => true
  | parameter _ => false

def identifier? : Segment → Option String
  | static _ => none
  | parameter identifier => some identifier

end Segment

def spelled : List Segment → List String → Option (List Char)
  | [], [] => some []
  | .static s :: segments, names => (spelled segments names).map (s.toList ++ ·)
  | .parameter _ :: segments, name :: names =>
    (spelled segments names).map ((Piece.placeholder name).source ++ ·)
  | _, _ => none

/-- The expansion is that of the path, whose placeholders have these names and mean these
parameters. -/
structure Expansion.Keeps (e : Expansion) (path : String) (parameters : List Parameter)
    (names : List String) (meant : List Parameter) : Prop where
  names_meant : names.map (Parameter.meant? parameters) = meant.map some
  spelled : spelled e.segments names = some path.toList
  identifiers : e.segments.filterMap Segment.identifier? = meant.map (·.derivedIdentifier)
  unbraced : ∀ name ∈ names, Unbraced name.toList
  texts : ∀ s, .static s ∈ e.segments → s ≠ "" ∧ Unbraced s.toList
  apart : TextsApart (e.segments.map Segment.isText)
  consumed : InOrderOfFirstUse (meant.map (·.name)) e.consumed

section
variable (h : List.Forall₂ (Piece.Becomes parameters) pieces parts)
include h

theorem spelled_map_segment :
    spelled (parts.map Part.segment) (pieces.filterMap Piece.name?) =
      some (pieces.flatMap Piece.source) := by
  induction h with
  | nil => rfl
  | @cons _ _ pieces parts becomes _ ih =>
    cases becomes with
    | text s =>
      show (spelled (parts.map _) (pieces.filterMap _)).map _ = _
      rw [ih]
      rfl
    | value meant =>
      show (spelled (parts.map _) (pieces.filterMap _)).map _ = _
      rw [ih]
      rfl

theorem map_meant?_filterMap_name? :
    (pieces.filterMap Piece.name?).map (Parameter.meant? parameters) =
      (parts.filterMap Part.parameter?).map some := by
  induction h with
  | nil => rfl
  | cons becomes _ ih =>
    cases becomes with
    | text s => exact ih
    | value meant => exact congrArg₂ List.cons meant ih

theorem map_isText_of_becomes : parts.map Part.isText = pieces.map Piece.isText := by
  induction h with
  | nil => rfl
  | cons becomes _ ih =>
    cases becomes with
    | text s => exact congrArg _ ih
    | value meant => exact congrArg _ ih

theorem exists_piece {part : Part} (mem : part ∈ parts) :
    ∃ piece ∈ pieces, piece.Becomes parameters part := exists_mem_of_forall₂ h.flip part mem

end

theorem filterMap_identifier?_map_segment (parts : List Part) :
    (parts.map Part.segment).filterMap Segment.identifier? =
      (parts.filterMap Part.parameter?).map (·.derivedIdentifier) := by
  rw [List.filterMap_map, List.map_filterMap]
  congr 1
  funext part
  cases part <;> rfl

theorem filterMap_parameterName? (parts : List Part) :
    parts.filterMap Part.parameterName? = (parts.filterMap Part.parameter?).map (·.name) := by
  rw [List.map_filterMap]
  congr 1
  funext part
  cases part <;> rfl

theorem map_isText_map_segment (parts : List Part) :
    (parts.map Part.segment).map Segment.isText = parts.map Part.isText := by
  rw [List.map_map]
  congr 1
  funext part
  cases part <;> rfl

theorem expand_eq_ok_iff : expand d parameters path = .ok e ↔
    ∃ parts, PathTemplate.parts path parameters = .ok parts ∧ Expansion.ofParts d parts = e := by
  unfold expand
  cases PathTemplate.parts path parameters <;> simp [Except.map]

theorem keeps_of_expand (h : expand d parameters path = .ok e) :
    ∃ names meant, e.Keeps path parameters names meant := by
  obtain ⟨parts, bound, rfl⟩ := expand_eq_ok_iff.1 h
  obtain ⟨balanced, becomes⟩ := parts_eq_ok_iff.1 bound
  refine ⟨(read path).pieces.filterMap Piece.name?, parts.filterMap Part.parameter?, ?_⟩
  constructor
  · exact map_meant?_filterMap_name? becomes
  · rw [← flatMap_source_read balanced]
    exact spelled_map_segment becomes
  · exact filterMap_identifier?_map_segment parts
  · intro name mem
    obtain ⟨piece, hp, eq⟩ := List.mem_filterMap.1 mem
    have plain := plain_read path piece hp
    cases piece with
    | text s => cases eq
    | placeholder raw =>
      cases eq
      exact plain
  · intro s mem
    obtain ⟨part, hpart, eq⟩ := List.mem_map.1 mem
    obtain ⟨piece, hp, become⟩ := exists_piece becomes hpart
    have plain := plain_read path piece hp
    cases become with
    | text t =>
      cases eq
      exact plain
    | value meant => cases eq
  · show TextsApart ((parts.map Part.segment).map Segment.isText)
    rw [map_isText_map_segment, map_isText_of_becomes becomes]
    exact textsApart_read path
  · show InOrderOfFirstUse _ (parts.filterMap Part.parameterName?).eraseDups
    rw [filterMap_parameterName?]
    exact inOrderOfFirstUse_eraseDups _

def Resolves (parameters : List Parameter) (name : String) : Prop :=
  ∃ p, Parameter.meant? parameters name = some p

theorem resolves_eq_declares (parameters : List Parameter) :
    Resolves parameters = Parameter.Declares parameters := by
  funext name
  rw [Resolves, ← Option.ne_none_iff_exists', ne_eq, Parameter.meant?_eq_none_iff, not_not]

/-- A path expands if it is text and placeholders of parameters; otherwise it fails for the first
reason that it gives. -/
theorem expand_scanned (d : PathDialect) (parameters : List Parameter) (path : String) :
    ((∃ e, expand d parameters path = .ok e) ↔ Expands (Resolves parameters) path.toList) ∧
      (∀ e, expand d parameters path = .ok e →
        ∃ names meant, e.Keeps path parameters names meant) ∧
      ∀ f, expand d parameters path = .error f ↔
        FailsAt path (Resolves parameters) path.toList f := by
  obtain ⟨fine, cause⟩ := parts_judged path parameters
  rw [resolves_eq_declares]
  refine ⟨?_, fun e => keeps_of_expand, fun f => ?_⟩
  · rw [← fine, expand]
    cases parts path parameters <;> simp [Except.map]
  · rw [← cause, expand]
    cases parts path parameters <;> simp [Except.map]

def linesPath : String := "/orders/\x7border_id\x7d\x7bline\x7d/of/\x7borderId\x7d"

theorem expand_scanned_lines :
    let parameters : List Parameter := [.plain "line" .query "integer",
      .plain "orderId" .path "string", .plain "line" .path "string"]
    let e : Expansion := {
      segments := [.static "/orders/", .parameter "orderId", .parameter "line", .static "/of/",
        .parameter "orderId"]
      rendered := "/orders/$\x7borderId\x7d$\x7bline\x7d/of/$\x7borderId\x7d"
      consumed := ["orderId", "line"] }
    expand .typescriptPlain parameters linesPath = .ok e ∧
      ∃ names meant, e.Keeps linesPath parameters names meant := by
  intro parameters e
  have expands : expand .typescriptPlain parameters linesPath = .ok e := by decide +kernel
  exact ⟨expands, (expand_scanned .typescriptPlain parameters linesPath).2.1 e expands⟩

end ApiModel.PathTemplate
