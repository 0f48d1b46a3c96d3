import ApiModel.Proofs.Operation.Groups
import ApiModel.Proofs.PathTemplate.Encoding
import ApiModel.Proofs.PathTemplate.Rendering

/-! The path of a normalized operation beside its parameter lists. A placeholder is rendered with
the identifier that the lists show for the parameter that it means, and it makes no difference
whether identifiers are filled in before the path is expanded. -/

namespace ApiModel

namespace Parameter

variable {p : Parameter}

theorem identifier_identified_ne_empty (p : Parameter) : p.identified.identifier ≠ "" := by
  show p.derivedIdentifier ≠ ""
  unfold derivedIdentifier
  split
  next =>
    rw [ne_eq, ← String.toList_eq_nil_iff, String.toList_ofList]
    exact Name.identifier_ne_nil _
  next given => simpa using given

theorem derivedIdentifier_of_ne_empty (h : p.identifier ≠ "") :
    p.derivedIdentifier = p.identifier := by
  rw [derivedIdentifier, if_neg (by simpa using h)]

end Parameter

/-- The code that puts the value called `identifier` into the path, for the parameter `p`. -/
def PathDialect.spliced (d : PathDialect) (p : Parameter) (identifier : String) : List Char :=
  match d with
  | typescript => { EncodeCall.of p with identifier }.source
  | d => d.opening ++ identifier.toList ++ d.closing ++ ['}']

theorem PathDialect.toList_interpolation_eq_spliced (d : PathDialect) (p : Parameter) :
    (d.interpolation p).toList = d.spliced p p.derivedIdentifier := by
  cases d with
  | typescript => exact EncodeCall.toList_interpolation p
  | typescriptPlain => exact PathTemplate.toList_interpolation (by decide) p
  | csharp => exact PathTemplate.toList_interpolation (by decide) p

namespace PathTemplate

variable {d : PathDialect} {parameters : List Parameter} {pieces : List Piece}

def Piece.spliced (d : PathDialect) (parameters : List Parameter) : Piece → List Char
  | text s => (d.static s).toList
  | placeholder name =>
    match Parameter.meant? parameters name with
    | none => []
    | some p => d.spliced p p.identifier

theorem toList_rendered {found : List Part}
    (h : List.Forall₂ (Piece.Becomes parameters) pieces found)
    (given : ∀ p ∈ parameters, p.identifier ≠ "") :
    (Expansion.ofParts d found).rendered.toList = pieces.flatMap (Piece.spliced d parameters) := by
  show (String.join (found.map (Part.render d))).toList = _
  rw [String.toList_join, List.flatMap_map]
  induction h with
  | nil => rfl
  | @cons piece part pieces found becomes _ ih =>
    have first : (part.render d).toList = piece.spliced d parameters := by
      cases becomes with
      | text s => rfl
      | @value name p meant =>
        have own := Parameter.derivedIdentifier_of_ne_empty (given p (Parameter.of_meant? meant).1)
        show (d.interpolation p).toList = _
        rw [PathDialect.toList_interpolation_eq_spliced, own, Piece.spliced, meant]
    rw [List.flatMap_cons, List.flatMap_cons, first, ih]

/-! ### Identifiers filled in -/

def Part.identified : Part → Part
  | text s => .text s
  | value p => .value p.identified

theorem parts_map_identified (path : String) (parameters : List Parameter) :
    parts path (parameters.map Parameter.identified) =
      (parts path parameters).map (List.map Part.identified) := by
  have each (piece : Piece) : piece.bind path (parameters.map Parameter.identified) =
      (piece.bind path parameters).map Part.identified := by
    cases piece with
    | text s => rfl
    | placeholder name =>
      rw [Piece.bind, Piece.bind, Parameter.meant?_map_identified]
      cases Parameter.meant? parameters name <;> rfl
  unfold parts
  simp only [each, Failure.mapM_map]
  cases (read path).pieces.mapM (·.bind path parameters) with
  | error f => rfl
  | ok found => cases (read path).balanced <;> rfl

theorem ofParts_map_identified (d : PathDialect) (found : List Part) :
    Expansion.ofParts d (found.map Part.identified) = Expansion.ofParts d found := by
  have segment (part : Part) : part.identified.segment = part.segment := by
    cases part with
    | text s => rfl
    | value p => exact congrArg Segment.parameter p.derivedIdentifier_identified
  have render (part : Part) : part.identified.render d = part.render d := by
    cases part with
    | text s => rfl
    | value p =>
      show d.interpolation p.identified = d.interpolation p
      apply String.toList_injective
      rw [PathDialect.toList_interpolation_eq_spliced, PathDialect.toList_interpolation_eq_spliced,
        p.derivedIdentifier_identified]
      cases d <;> rfl
  have name (part : Part) : part.identified.parameterName? = part.parameterName? := by
    cases part <;> rfl
  simp only [Expansion.ofParts, List.map_map, List.filterMap_map, Function.comp_def, segment, render,
    name]

theorem expand_map_identified (d : PathDialect) (parameters : List Parameter) (path : String) :
    expand d (parameters.map Parameter.identified) path = expand d parameters path := by
  unfold expand
  rw [parts_map_identified]
  cases parts path parameters with
  | error f => rfl
  | ok found => exact congrArg Except.ok (ofParts_map_identified d found)

end PathTemplate

namespace Operation

open PathTemplate

variable {c : Config} {op o : Operation}

def placeholders (op : Operation) : List String := (read op.path).pieces.filterMap Piece.name?

def pathEntries (op : Operation) : List Parameter :=
  op.placeholders.filterMap (Parameter.meant? op.parameters)

/-- What generated code finds in `o` for the path of `op`. -/
structure PathAgrees (d : PathDialect) (op o : Operation) : Prop where
  path : o.path = op.path
  pieces : (read op.path).pieces.flatMap Piece.source = op.path.toList
  entries : ∀ name ∈ o.placeholders, ∃ p ∈ o.parameters,
    Parameter.meant? o.parameters name = some p ∧ p.identifier ≠ "" ∧
      p ∈ o.view.groups.all ∧ p ∈ o.view.groups.located p.location
  rendered : o.view.renderedPath.toList =
    (read op.path).pieces.flatMap (Piece.spliced d o.parameters)
  consumed : InOrderOfFirstUse (o.pathEntries.map (·.name)) o.view.consumedParameters
  expanded : ∃ e, expand d op.parameters op.path = .ok e ∧ expand d o.parameters o.path = .ok e ∧
    e.rendered = o.view.renderedPath ∧ e.consumed = o.view.consumedParameters

theorem pathEntries_of_becomes {found : List Part}
    (h : List.Forall₂ (Piece.Becomes op.parameters) (read op.path).pieces found) :
    op.pathEntries = found.filterMap Part.parameter? := by
  have meant := map_meant?_filterMap_name? h
  have found? (l : List String) : l.filterMap (Parameter.meant? op.parameters) =
      (l.map (Parameter.meant? op.parameters)).filterMap id := by
    rw [List.filterMap_map]
    rfl
  rw [pathEntries, found?, placeholders, meant, List.filterMap_map]
  exact List.filterMap_some

theorem identifier_ne_empty_of_mem_identified {p : Parameter} (hp : p ∈ op.identified) :
    p.identifier ≠ "" := by
  obtain ⟨q, _, rfl⟩ := List.mem_map.1 hp
  exact q.identifier_identified_ne_empty

theorem pathAgrees_of_normalize (h : op.normalize c = .ok o) :
    PathAgrees c.pathDialect op o := by
  obtain ⟨found, bound, rfl⟩ := normalize_eq_ok_iff.1 h
  obtain ⟨balanced, becomes⟩ := parts_eq_ok_iff.1 bound
  have expands : expand c.pathDialect op.identified op.path =
      .ok (.ofParts c.pathDialect found) := expand_eq_ok_iff.2 ⟨found, bound, rfl⟩
  constructor
  case path => rfl
  case pieces => exact flatMap_source_read balanced
  case entries =>
    intro name mem
    obtain ⟨piece, hpiece, named⟩ := List.mem_filterMap.1 mem
    obtain ⟨part, _, become⟩ := exists_mem_of_forall₂ becomes piece hpiece
    cases become with
    | text s => cases named
    | @value _ p meant =>
      cases named
      have declared := (Parameter.of_meant? meant).1
      exact ⟨p, declared, meant, identifier_ne_empty_of_mem_identified declared,
        ParameterGroups.mem_all_ofList.2 declared,
        ParameterGroups.mem_located_ofList.2 ⟨declared, rfl⟩⟩
  case rendered =>
    exact toList_rendered becomes fun p => identifier_ne_empty_of_mem_identified
  case consumed =>
    have entries : (op.ofParts c found).pathEntries = found.filterMap Part.parameter? :=
      pathEntries_of_becomes becomes
    rw [entries, ← filterMap_parameterName?]
    exact inOrderOfFirstUse_eraseDups _
  case expanded =>
    refine ⟨_, ?_, expands, rfl, rfl⟩
    rw [← expand_map_identified]
    exact expands

theorem PathAgrees.consumed_eq_nil_iff {d : PathDialect} (h : PathAgrees d op o) :
    o.view.consumedParameters = [] ↔ op.placeholders = [] := by
  have same : o.placeholders = op.placeholders := by rw [placeholders, placeholders, h.path]
  rw [← same, List.eq_nil_iff_forall_not_mem, List.eq_nil_iff_forall_not_mem]
  constructor
  · intro none name mem
    obtain ⟨p, _, meant, _⟩ := h.entries name mem
    have entry : p ∈ o.pathEntries := List.mem_filterMap.2 ⟨name, mem, meant⟩
    exact none p.name ((h.consumed.mem_iff _).2 (List.mem_map_of_mem entry))
  · intro none used mem
    obtain ⟨p, entry, _⟩ := List.mem_map.1 ((h.consumed.mem_iff _).1 mem)
    obtain ⟨name, hname, _⟩ := List.mem_filterMap.1 entry
    exact none name hname

theorem form_eq_nil_iff (h : op.normalize c = .ok o) :
    o.view.groups.form = [] ↔ o.hasFormParameters = false := by
  obtain ⟨found, _, rfl⟩ := normalize_eq_ok_iff.1 h
  have form (p : Parameter) : p ∈ (ParameterGroups.ofList op.identified).located .form ↔
      p ∈ op.identified ∧ p.location = .form := ParameterGroups.mem_located_ofList
  show (ParameterGroups.ofList op.identified).located .form = [] ↔ _
  rw [List.eq_nil_iff_forall_not_mem]
  simp only [form, hasFormParameters, List.any_eq_false, beq_iff_eq, not_and]
  rfl

end Operation

end ApiModel
