import ApiModel.Proofs.Document.MemberNames

/-! Where each listed member of a model comes from. What a schema authors itself stands in its lists
as it was authored, except for the default that names the subtype; all else is a copy of what the
parent or an embedded schema has in the end. -/

namespace ApiModel

namespace Model

def parent? (m : Model) (s : Schema) : Option Schema := s.parent.bind m.schema?

/-- The parent of `s` has the enum `p` as well. -/
def Redeclares (m : Model) (s : Schema) (p : Property) : Prop :=
  ∃ u, m.parent? s = some u ∧ ∃ q ∈ u.view.members.all, p.sameEnum q = true

def defaultOf (m : Model) (s : Schema) (p : Property) : Option String :=
  if p.defaultValue = none ∧ p.isReadOnly = false ∧ (m.parent? s).any (·.discriminates p) = true then
    some s.name
  else p.defaultValue

/-- Where the entry `e` in a list of `s` comes from. -/
structure Provenance (m : Model) (s : Schema) (e : Property) : Prop where
  authored : ∀ p ∈ s.properties, p.name = e.name → ¬ m.Redeclares s p →
    e.untagged = { p.untagged with defaultValue := m.defaultOf s p }
  received : (∀ p ∈ s.properties, p.name = e.name → m.Redeclares s p) → e.isInherited = true ∧
    ∃ q, s.Receives m.schema? q ∧ q.name = e.name ∧ e.inherited = q.inherited

end Model

namespace Document

variable {c : Config} {d : Document} {m : Model} {r R : Registry} {as : List TagAssignment}
  {imports : String → List String} {s : Schema} {p e : Property}

namespace Outcome

variable (h : Outcome c d m r R as imports)
include h

theorem parent?_eq (s : Schema) :
    m.parent? s = (R.parent? s).map (Schema.finish c.naming as imports) := by
  rw [Model.parent?, Registry.parent?]
  cases s.parent with
  | none => rfl
  | some parent => exact h.schema? parent

theorem redeclares_iff : m.Redeclares s p ↔ s.isRedeclared R p = true := by
  rw [Schema.isRedeclared, List.any_eq_true]
  simp only [Model.Redeclares, h.parent?_eq, Schema.parentMembers]
  cases R.parent? s with
  | none => simp
  | some u =>
    simp only [Option.map_some, Option.some_inj, exists_eq_left']
    exact Schema.exists_mem_all_finish_iff fun _ _ => by rw [Property.sameEnum_retag]

theorem untagged_withSubtypeDefault : (s.withSubtypeDefault R p).untagged =
    { p.untagged with defaultValue := m.defaultOf s p } := by
  have discriminated : (m.parent? s).any (·.discriminates p) =
      (R.parent? s).any (·.discriminates p) := by
    rw [h.parent?_eq, Option.any_map]
    rfl
  have asked : (!p.isReadOnly && !p.hasDefault && (R.parent? s).any (·.discriminates p)) = true ↔
      p.defaultValue = none ∧ p.isReadOnly = false ∧
        (m.parent? s).any (·.discriminates p) = true := by
    rw [discriminated, Bool.and_eq_true, Bool.and_eq_true, Bool.not_eq_true', Bool.not_eq_true',
      Property.hasDefault, Option.isSome_eq_false_iff, Option.isNone_iff_eq_none]
    tauto
  rw [Schema.withSubtypeDefault, Model.defaultOf]
  by_cases own : p.defaultValue = none ∧ p.isReadOnly = false ∧
      (m.parent? s).any (·.discriminates p) = true
  · rw [if_pos own, if_pos (asked.2 own)]
    rfl
  · rw [if_neg own, if_neg fun given => own (asked.1 given)]
    rfl

theorem provenance_own (hs : s ∈ d.schemas) (mine : p ∈ s.ownMembers R) :
    m.Provenance s (p.retag as s.name) := by
  obtain ⟨p₀, kept, rfl⟩ := List.mem_map.1 mine
  obtain ⟨hp₀, new⟩ := List.mem_filter.1 kept
  constructor
  case authored =>
    intro p' hp' name _
    rw [Property.name_retag, Schema.name_withSubtypeDefault] at name
    have same : p' = p₀ := (h.distinctNames hs).eq hp' hp₀ name
    rw [Property.untagged_retag, same, h.untagged_withSubtypeDefault]
  case received =>
    intro redeclared
    have again := h.redeclares_iff.1 (redeclared p₀ hp₀ (by simp))
    rw [again] at new
    cases new

theorem provenance_inherited (receives : s.Receives R.find? p)
    (new : Property.declares (s.ownMembers R) p.name = false) :
    m.Provenance s (p.inherited.retag as s.name) := by
  constructor
  case authored =>
    intro p' hp' name kept
    rw [h.redeclares_iff, Bool.not_eq_true] at kept
    rw [Property.name_retag] at name
    have held : Property.declares (s.ownMembers R) p.name = true :=
      Schema.declares_ownMembers.2 ⟨p', hp', kept, name⟩
    rw [new] at held
    cases held
  case received =>
    intro _
    refine ⟨Property.isInherited_retag as s.name _, ?_⟩
    rw [Property.name_retag, Property.inherited_retag]
    refine (h.exists_receives_iff fun _ _ _ => ?_).2 ⟨p, receives, rfl, rfl⟩
    rw [Property.name_retag, Property.inherited_retag]

theorem provenance (hs : s ∈ d.schemas) {l : List Property}
    (hl : l ∈ ((s.normalize c R).finish c.naming as imports).view.members.lists) (he : e ∈ l) :
    m.Provenance s e := by
  obtain ⟨l₀, hl₀, q, hq, rfl⟩ := Schema.exists_of_mem_lists_finish hl he
  have origin := Schema.mem_direct_or_inherited_of_mem_lists l₀ hl₀ q hq
  rcases Schema.own_or_received origin with mine | ⟨p, receives, new, rfl⟩
  · exact h.provenance_own hs mine
  · exact h.provenance_inherited receives new

end Outcome

/-- Every listed member is the schema's own or comes from one that it takes from. -/
theorem normalize_provenance (h : d.normalize c = .ok m) :
    d.EachBecomes m fun s t => ∀ l ∈ t.view.members.lists, ∀ e ∈ l, m.Provenance s e := by
  obtain ⟨r, R, as, imports, out⟩ := exists_outcome h
  exact out.eachBecomes fun s hs l hl e he => out.provenance hs hl he

theorem normalize_provenance_zoo : ∃ m, zoo.normalize { profile := .taggedUnion } = .ok m ∧
    zoo.EachBecomes m fun s t => ∀ l ∈ t.view.members.lists, ∀ e ∈ l, m.Provenance s e := by
  obtain ⟨m, hm⟩ := exists_normalize_zoo { profile := .taggedUnion }
  exact ⟨m, hm, normalize_provenance hm⟩

end Document

end ApiModel
