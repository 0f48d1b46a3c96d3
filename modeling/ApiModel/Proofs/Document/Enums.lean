import ApiModel.Proofs.Document.Inheritance

/-! Enums that a schema declares and its parent has too. The schema then has only a copy of them,
which comes back through what it inherits; all else that it declares it keeps, and hides from what
it inherits. -/

namespace ApiModel

open Property (declares)

/-- What became in `t` of the property `p` that `s` declares. -/
structure Model.Reconciles (d : Document) (m : Model) (s t : Schema) (p : Property) : Prop where
  copied : m.Redeclares s p →
    (∀ l ∈ t.view.members.lists, ∀ e ∈ l, e.name = p.name → e.isInherited = true ∧
      ∃ q, s.Receives m.schema? q ∧ q.name = e.name ∧ e.inherited = q.inherited) ∧
    ∃ e ∈ t.view.members.parent, p.sameEnum e = true
  kept : ¬ m.Redeclares s p → declares t.view.members.parent p.name = false ∧
    (¬ d.Drops s p.name → ∃ e ∈ t.view.members.vars,
      e.name = p.name ∧ e.isEnum = p.isEnum ∧ e.enumValues = p.enumValues)

namespace Schema

variable {c : Config} {r : Registry} {s : Schema} {p : Property} {x : String}

theorem declares_visibleMembers_of_own (h : declares (ownMembers r s) x = true) :
    declares (visibleMembers c r s) x = true := by
  have direct : declares (directMembers r s) x = true := by
    rw [declares_directMembers]
    exact .inl (declares_ownMembers.1 h)
  have append : declares (visibleCandidates c r s) x =
      (declares (directMembers r s) x || _) := List.any_append
  rw [visibleMembers, Property.declares_firstOfEachName, append, direct, Bool.true_or]

theorem exists_sameEnum_inheritedMembers (again : isRedeclared r s p = true)
    (other : declares (ownMembers r s) p.name = false) :
    ∃ q ∈ inheritedMembers r s, p.sameEnum q = true := by
  obtain ⟨q, hq, same⟩ := List.any_eq_true.1 again
  have new : (!declares (ownMembers r s) q.name) = true := by
    rw [← Property.name_eq_of_sameEnum same, other, Bool.not_false]
  exact ⟨q.inherited, List.mem_map_of_mem (List.mem_filter.2 ⟨hq, new⟩), same⟩

end Schema

namespace Document

variable {c : Config} {d : Document} {m : Model} {r R : Registry} {as : List TagAssignment}
  {imports : String → List String} {s : Schema} {p : Property}

namespace Outcome

variable (h : Outcome c d m r R as imports)
include h

theorem declares_ownMembers_eq_false (hs : s ∈ d.schemas) (hp : p ∈ s.properties)
    (again : m.Redeclares s p) : declares (s.ownMembers R) p.name = false := by
  rw [Bool.eq_false_iff, ne_eq, Schema.declares_ownMembers]
  rintro ⟨p', hp', own, name⟩
  have same : p' = p := (h.distinctNames hs).eq hp' hp name
  rw [same, h.redeclares_iff.1 again] at own
  cases own

theorem exists_sameEnum_mem_parent (hs : s ∈ d.schemas) (hp : p ∈ s.properties)
    (again : m.Redeclares s p) :
    ∃ e ∈ ((s.normalize c R).finish c.naming as imports).view.members.parent,
      p.sameEnum e = true := by
  have other := h.declares_ownMembers_eq_false hs hp again
  obtain ⟨q, hq, same⟩ :=
    Schema.exists_sameEnum_inheritedMembers (h.redeclares_iff.1 again) other
  refine ⟨q.retag as s.name, List.mem_map_of_mem (Property.mem_sort.2 hq), ?_⟩
  rw [Property.sameEnum_retag, same]

theorem declares_vars_of_own (own : ¬ m.Redeclares s p) (hp : p ∈ s.properties)
    (left : ¬ d.Drops s p.name) :
    declares ((s.normalize c R).finish c.naming as imports).view.members.vars p.name = true := by
  have declared : declares (s.ownMembers R) p.name = true :=
    h.declares_iff.1 ⟨p, hp, rfl, own⟩
  have kept : (s.droppedNames R).contains p.name = false := by
    rw [Bool.eq_false_iff, ne_eq, List.contains_iff_mem, h.mem_droppedNames]
    exact left
  have vars : Members.vars ∈ Members.pruned := List.mem_cons_self
  have visible : declares (s.gathered c R).vars p.name = true :=
    Schema.declares_visibleMembers_of_own declared
  rw [Schema.declares_category_finish Members.vars vars,
    Schema.members_eq_filter_gathered c R s Members.vars vars,
    Property.declares_filter_name fun x => !(s.droppedNames R).contains x, visible, kept]
  rfl

theorem reconciles (hs : s ∈ d.schemas) (hp : p ∈ s.properties) :
    m.Reconciles d s ((s.normalize c R).finish c.naming as imports) p := by
  have unique {p' : Property} (hp' : p' ∈ s.properties) (name : p'.name = p.name) : p' = p :=
    (h.distinctNames hs).eq hp' hp name
  constructor
  case copied =>
    intro again
    refine ⟨fun l hl e he name => ?_, h.exists_sameEnum_mem_parent hs hp again⟩
    apply (h.provenance hs hl he).received
    intro p' hp' name'
    rwa [unique hp' (name'.trans name)]
  case kept =>
    intro own
    refine ⟨?_, fun left => ?_⟩
    · rw [Bool.eq_false_iff, ne_eq, h.declares_parent_iff]
      exact fun received => received.2 ⟨p, hp, rfl, own⟩
    · obtain ⟨e, he, name⟩ := Property.declares_iff.1 (h.declares_vars_of_own own hp left)
      have listed := (h.provenance hs List.mem_cons_self he).authored p hp name.symm own
      have isEnum : e.untagged.isEnum = p.isEnum := by rw [listed, Property.untagged]
      have values : e.untagged.enumValues = p.enumValues := by rw [listed, Property.untagged]
      exact ⟨e, he, name, isEnum, values⟩

end Outcome

/-- A property that is only an enum of the parent is left as an inherited copy, and any other one
stays with its values. -/
theorem normalize_enums (h : d.normalize c = .ok m) :
    d.EachBecomes m fun s t => ∀ p ∈ s.properties, m.Reconciles d s t p := by
  obtain ⟨r, R, as, imports, out⟩ := exists_outcome h
  exact out.eachBecomes fun s hs p hp => out.reconciles hs hp

def mood (values : List String) : Property := (Property.plain "mood" "mood" "string").withEnum values

def moods : Document where
  schemas := [
    (Schema.named "Animal").withProperties [mood ["calm", "wild"]],
    (Schema.named "Tame").withProperties [mood ["calm", "wild"]],
    (((Schema.named "Dog").withParent "Animal").composedOf .allOf ["Tame"]).withProperties
      [mood ["calm", "wild"]],
    ((Schema.named "Cat").withParent "Animal").withProperties [mood ["wild", "calm"]]]

theorem normalize_enums_moods : ∃ m, moods.normalize {} = .ok m ∧
    (m.schema? "Dog").map (·.view.members.parent) = some [(mood ["calm", "wild"]).inherited] ∧
    (m.schema? "Cat").map (·.view.members.vars) = some [mood ["wild", "calm"]] ∧
    moods.EachBecomes m fun s t => ∀ p ∈ s.properties, m.Reconciles moods s t p := by
  obtain ⟨m, hm, shown⟩ := exists_normalize_of_any (d := moods) (c := {}) (P := fun m => decide (
      (m.schema? "Dog").map (·.view.members.parent) = some [(mood ["calm", "wild"]).inherited] ∧
      (m.schema? "Cat").map (·.view.members.vars) = some [mood ["wild", "calm"]]))
    (by decide +kernel)
  obtain ⟨dog, cat⟩ := of_decide_eq_true shown
  exact ⟨m, hm, dog, cat, normalize_enums hm⟩

end Document

end ApiModel
