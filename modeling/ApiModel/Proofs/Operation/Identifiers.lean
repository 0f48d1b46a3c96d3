import ApiModel.Proofs.Name.Identifier
import ApiModel.Proofs.Operation.Paths

/-! Identifiers of parameters. A parameter that comes without one gets it from its name, wherever it
is listed in a normalized operation and wherever a path is rendered with it; such an identifier is
safe exactly if the name has no stray character. -/

namespace ApiModel

open Name (Derives IsSafe IsStray)

/-- `identifier` is the one that the parameter has, or else one that its name gives. -/
structure Parameter.Identifies (p : Parameter) (identifier : String) : Prop where
  given : p.identifier ≠ "" → identifier = p.identifier
  derived : p.identifier = "" → Derives p.name.toList identifier.toList

theorem Parameter.identifies_derivedIdentifier (p : Parameter) :
    p.Identifies p.derivedIdentifier where
  given := derivedIdentifier_of_ne_empty
  derived empty := by
    rw [derivedIdentifier, if_pos (by simp [empty]), String.toList_ofList]
    exact Name.derives_identifier p.name.toList

namespace PathTemplate

variable {d : PathDialect} {parameters : List Parameter} {path : String} {e : Expansion}

/-- What becomes of a piece: a segment and its code, which is the text, escaped, or the value of the
parameter that is meant, under an identifier of it. -/
inductive Piece.Renders (d : PathDialect) (parameters : List Parameter) :
    Piece → Segment × List Char → Prop
  | text (s : String) : Renders d parameters (.text s) (.static s, (d.static s).toList)
  | placeholder {name : String} {p : Parameter} {identifier : String}
      (meant : Parameter.meant? parameters name = some p) (identifies : p.Identifies identifier) :
      Renders d parameters (.placeholder name) (.parameter identifier, d.spliced p identifier)

theorem Piece.Becomes.renders {piece : Piece} {part : Part} (h : piece.Becomes parameters part)
    (d : PathDialect) : piece.Renders d parameters (part.segment, (part.render d).toList) := by
  cases h with
  | text s => exact .text s
  | @value name p meant =>
    show Piece.Renders d parameters _ (.parameter p.derivedIdentifier, (d.interpolation p).toList)
    rw [PathDialect.toList_interpolation_eq_spliced]
    exact .placeholder meant p.identifies_derivedIdentifier

theorem exists_renders_of_expand (h : expand d parameters path = .ok e) :
    ∃ found, List.Forall₂ (Piece.Renders d parameters) (read path).pieces found ∧
      e.segments = found.map Prod.fst ∧ e.rendered.toList = found.flatMap Prod.snd := by
  obtain ⟨parts, bound, rfl⟩ := expand_eq_ok_iff.1 h
  refine ⟨parts.map fun part => (part.segment, (part.render d).toList), ?_, ?_, ?_⟩
  · rw [List.forall₂_map_right_iff]
    exact (parts_eq_ok_iff.1 bound).2.imp fun _ _ becomes => becomes.renders d
  · rw [List.map_map]
    rfl
  · show (String.join (parts.map (Part.render d))).toList = _
    rw [String.toList_join, List.flatMap_map, List.flatMap_map]

end PathTemplate

namespace Operation

open PathTemplate

variable {c : Config} {op o : Operation}

theorem forall₂_identifies_of_normalize (h : op.normalize c = .ok o) :
    List.Forall₂ (fun p q => q = { p with identifier := q.identifier } ∧ p.Identifies q.identifier)
      op.parameters o.parameters := by
  rw [(groups_of_normalize h).1, identified, List.forall₂_map_right_iff, List.forall₂_same]
  exact fun p _ => ⟨rfl, p.identifies_derivedIdentifier⟩

theorem subset_parameters_of_mem_lists (h : op.normalize c = .ok o) {l : List Parameter}
    (hl : l ∈ o.view.groups.lists) : l ⊆ o.parameters := by
  obtain ⟨parameters, groups⟩ := groups_of_normalize h
  have divides := ParameterGroups.divides_ofList op.identified
  rw [groups] at hl
  rw [parameters]
  have sub := ParameterGroups.sublist_of_mem_lists divides.located divides.required
    divides.optional l hl
  exact fun q hq => divides.perm.mem_iff.1 (sub.subset hq)

/-- What has no identifier of its own, be it listed with an operation or rendered in a path, has one
that its name gives; this is safe exactly if the name has no stray character. -/
theorem normalize_identifiers (s : List Char) (c : Config) (op : Operation) (d : PathDialect)
    (parameters : List Parameter) (path : String) :
    Derives s (Name.identifier s) ∧
    (∀ o, op.normalize c = .ok o →
      List.Forall₂ (fun p q => q = { p with identifier := q.identifier } ∧
        p.Identifies q.identifier) op.parameters o.parameters ∧
      ∀ l ∈ o.view.groups.lists, l ⊆ o.parameters) ∧
    ∀ e, expand d parameters path = .ok e →
      ∃ found, List.Forall₂ (Piece.Renders d parameters) (read path).pieces found ∧
        e.segments = found.map Prod.fst ∧ e.rendered.toList = found.flatMap Prod.snd := by
  refine ⟨Name.derives_identifier s, fun o h => ?_, fun e h => exists_renders_of_expand h⟩
  exact ⟨forall₂_identifies_of_normalize h, fun l hl => subset_parameters_of_mem_lists h hl⟩

def search : Operation :=
  { plain "search" .get "/\x7bclass\x7d/items" with
    parameters := [
      .plain "class" .path "string",
      .plain "2fa-code" .header "string",
      .plain "API_KEY" .query "string",
      .plain "-" .cookie "string"] }

theorem normalize_identifiers_search : Derives "2fa-code".toList "_2faCode".toList ∧
    ∃ o e, search.normalize {} = .ok o ∧
    o.parameters.map (·.identifier) = ["_class", "_2faCode", "API_KEY", "_empty"] ∧
    (∀ q ∈ o.parameters, IsSafe q.identifier.toList) ∧
    expand .csharp search.parameters search.path = .ok e ∧
    e.rendered = "/\x7bUri.EscapeDataString(_class.ToString())\x7d/items" ∧
    ∃ found,
      List.Forall₂ (Piece.Renders .csharp search.parameters) (read search.path).pieces found ∧
        e.segments = found.map Prod.fst ∧ e.rendered.toList = found.flatMap Prod.snd := by
  obtain ⟨derives, listed, rendered⟩ :=
    normalize_identifiers "2fa-code".toList {} search .csharp search.parameters search.path
  have code : Name.identifier "2fa-code".toList = "_2faCode".toList := by decide +kernel
  obtain ⟨o, ho⟩ := Failure.of?_eq_none_iff.1
    (show Failure.of? (search.normalize {}) = none by decide +kernel)
  have identifiers : (search.normalize {}).toOption.map (·.parameters.map (·.identifier)) =
      some ["_class", "_2faCode", "API_KEY", "_empty"] := by decide +kernel
  rw [ho] at identifiers
  let e : Expansion := {
    segments := [.static "/", .parameter "_class", .static "/items"]
    rendered := "/\x7bUri.EscapeDataString(_class.ToString())\x7d/items"
    consumed := ["class"] }
  have expands : expand .csharp search.parameters search.path = .ok e := by decide +kernel
  have plain : search.parameters.all fun p =>
      p.identifier == "" && p.name.toList.all fun x => !decide (IsStray x) := by decide
  refine ⟨code ▸ derives, o, e, ho, Option.some.inj identifiers, fun q hq => ?_, expands, rfl,
    rendered e expands⟩
  obtain ⟨p, hp, _, identifies⟩ := exists_mem_of_forall₂ (listed o ho).1.flip q hq
  obtain ⟨unnamed, clear⟩ := Bool.and_eq_true_iff.1 (List.all_eq_true.1 plain p hp)
  refine (identifies.derived (beq_iff_eq.1 unnamed)).safe_iff.2 fun x hx => ?_
  simpa using List.all_eq_true.1 clear x hx

/-- Brackets are no separators, so a name with a subscript is its own identifier. -/
theorem normalize_keepsBrackets_filter :
    let p : Parameter := .plain "filter[name]" .path "string"
    let op : Operation :=
      { plain "findPets" .get "/pets/\x7bfilter[name]\x7d" with parameters := [p] }
    p.identifier = "" ∧ Name.identifier "filter[name]".toList = "filter[name]".toList ∧
      (op.normalize {}).toOption.map (·.parameters.map (·.identifier)) = some ["filter[name]"] ∧
      expand .typescriptPlain op.parameters op.path = .ok {
        segments := [.static "/pets/", .parameter "filter[name]"]
        rendered := "/pets/$\x7bfilter[name]\x7d"
        consumed := ["filter[name]"] } ∧
      ¬ IsSafe "filter[name]".toList := by
  refine ⟨rfl, by decide +kernel, by decide +kernel, by decide +kernel, fun safe => ?_⟩
  exact absurd safe.word (by decide)

end Operation

end ApiModel
