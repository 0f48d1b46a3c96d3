import ApiModel.Proofs.Document.Alternatives
import ApiModel.Proofs.Document.Provenance

/-! The members that a schema has from its parent, beside those that it shows as its own. They are
fixed before the schemas that it embeds and its alternatives are looked at: an embedded member may
have the name of an inherited one, and what an alternative takes away stays among the inherited. -/

namespace ApiModel

open Property (declares)

namespace Model

/-- `s` has a property of this name that is not only an enum of its parent. -/
def Declares (m : Model) (s : Schema) (x : String) : Prop :=
  ∃ p ∈ s.properties, p.name = x ∧ ¬ m.Redeclares s p

/-- The parent of `s` has a member `x` in the end that `s` does not declare itself. -/
def HandsDown (m : Model) (s : Schema) (x : String) : Prop :=
  (∃ u, m.parent? s = some u ∧ declares u.view.members.all x = true) ∧ ¬ m.Declares s x

def Embeds (m : Model) (s : Schema) (x : String) : Prop :=
  ∃ k ∈ s.embedded, ∃ u, m.schema? k.name = some u ∧ declares u.view.members.all x = true

end Model

theorem Property.declares_finished (as : List TagAssignment) (schema : String) (l : List Property)
    (x : String) : declares ((sort l).map (retag as schema)) x = declares l x := by
  have names : declares ((sort l).map (retag as schema)) x = declares (sort l) x := by
    unfold declares
    rw [List.any_map]
    simp only [Function.comp_def, name_retag]
  rw [names, declares_perm (sort_perm l)]

namespace Schema

variable {c : Config} {R : Registry} {s : Schema} {as : List TagAssignment}
  {imports : String → List String}

theorem declares_category_finish (category : Members → List Property)
    (hc : category ∈ Members.pruned) (x : String) :
    declares (category ((s.normalize c R).finish c.naming as imports).view.members) x =
      declares (category (s.members c R)) x := by
  have finished : category ((s.normalize c R).finish c.naming as imports).view.members =
      (Property.sort (category (s.members c R))).map (Property.retag as s.name) := by
    show category (((s.members c R).map Property.sort).map (·.map (Property.retag as s.name))) = _
    rw [Members.category_map _ _ category hc, Members.category_map _ _ category hc]
  rw [finished, Property.declares_finished]

end Schema

namespace Document

variable {c : Config} {d : Document} {m : Model} {r R : Registry} {as : List TagAssignment}
  {imports : String → List String} {s : Schema} {x n : String}

namespace Outcome

variable (h : Outcome c d m r R as imports)
include h

theorem exists_schema?_declares_iff :
    (∃ u, m.schema? n = some u ∧ declares u.view.members.all x = true) ↔
      ∃ u, R.find? n = some u ∧ declares u.view.members.all x = true := by
  have offered := h.map_unmarkedOffer_schema? n
  have names (o : Option Schema) : (∃ u, o = some u ∧ declares u.view.members.all x = true) ↔
      ∃ o' ∈ o.map Schema.unmarkedOffer, declares o'.2 x = true := by
    cases o with
    | none => simp
    | some u =>
      have unmarked : declares (u.view.members.all.map Property.unmarked) x =
          declares u.view.members.all x := List.any_map
      simp [Schema.unmarkedOffer, unmarked]
  rw [names, names, offered]

theorem declares_iff : m.Declares s x ↔ declares (s.ownMembers R) x = true := by
  rw [Schema.declares_ownMembers]
  unfold Model.Declares
  simp only [h.redeclares_iff, Bool.not_eq_true, and_comm]

theorem handsDown_iff : m.HandsDown s x ↔ declares (s.inheritedMembers R) x = true := by
  have parent : (∃ u, m.parent? s = some u ∧ declares u.view.members.all x = true) ↔
      declares (s.parentMembers R) x = true := by
    unfold Model.parent? Schema.parentMembers Registry.parent?
    cases s.parent with
    | none => simp [declares]
    | some n =>
      rw [Option.bind_some, Option.bind_some, h.exists_schema?_declares_iff]
      cases R.find? n with
      | none => simp [declares]
      | some u => simp
  rw [Schema.declares_inheritedMembers, Model.HandsDown, parent, h.declares_iff, Bool.not_eq_true]

theorem embeds_iff : m.Embeds s x ↔
    ∃ k ∈ s.embedded, ∃ u, R.find? k.name = some u ∧ declares u.view.members.all x = true := by
  unfold Model.Embeds
  simp only [h.exists_schema?_declares_iff]

theorem declares_parent_iff :
    declares ((s.normalize c R).finish c.naming as imports).view.members.parent x = true ↔
      m.HandsDown s x := by
  have finished := Property.declares_finished as s.name (s.inheritedMembers R) x
  rw [h.handsDown_iff, ← finished]
  rfl

end Outcome

/-- A name that an alternative takes away is left in no list but the one of the inherited members,
and there whenever the parent hands it down. -/
theorem normalize_droppedNames (h : d.normalize c = .ok m) :
    d.EachBecomes m fun s t => ∀ x, d.Drops s x →
      (∀ category ∈ Members.pruned, declares (category t.view.members) x = false) ∧
        (declares t.view.members.parent x = true ↔ m.HandsDown s x) := by
  obtain ⟨r, R, as, imports, out⟩ := exists_outcome h
  refine out.eachBecomes fun s _ x drops => ⟨fun category hc => ?_, out.declares_parent_iff⟩
  have dropped : (s.droppedNames R).contains x = true :=
    List.contains_iff_mem.2 (out.mem_droppedNames.2 drops)
  rw [Schema.declares_category_finish category hc,
    Schema.members_eq_filter_gathered c R s category hc,
    Property.declares_filter_name fun x => !(s.droppedNames R).contains x, dropped, Bool.not_true,
    Bool.and_false]

def identifier : Property := Property.plain "id" "id" "string"

def card : Schema := (Schema.named "Card").withProperties [identifier]

def payment : Schema := ((Schema.named "Payment").withParent "Payable").composedOf .oneOf ["Card"]

def payments : Document where
  schemas := [card, (Schema.named "Payable").withProperties [identifier], payment]

theorem drops_payment : payments.Drops payment "id" := by
  have alternative : { kind := .oneOf, name := "Card" } ∈ payment.composedFrom := by decide
  have registered : card ∈ payments.schemas := List.mem_cons_self
  have declared : identifier ∈ card.properties := List.mem_cons_self
  exact ⟨_, alternative, by decide, by decide, by decide, card, registered, rfl, identifier,
    declared, rfl, rfl⟩

theorem normalize_droppedNames_payments : ∃ m, payments.normalize {} = .ok m ∧
    payments.Drops payment "id" ∧ payments.EachBecomes m fun s t => ∀ x, payments.Drops s x →
      (∀ category ∈ Members.pruned, declares (category t.view.members) x = false) ∧
        (declares t.view.members.parent x = true ↔ m.HandsDown s x) := by
  obtain ⟨m, hm, _⟩ := exists_normalize_of_any (d := payments) (c := {}) (P := fun _ => true)
    (by decide +kernel)
  exact ⟨m, hm, drops_payment, normalize_droppedNames hm⟩

/-- No discriminator names the `id`, and yet the payment still inherits it. -/
theorem normalize_inheritsDropped_payments : ∃ m, payments.normalize {} = .ok m ∧
    payment.discriminator = none ∧ payments.Drops payment "id" ∧
      (m.schema? "Payment").map (·.view.members.all) = some [] ∧
      (m.schema? "Payment").map (·.view.members.parent) = some [identifier.inherited] := by
  obtain ⟨m, hm, shown⟩ := exists_normalize_of_any (d := payments) (c := {})
    (P := fun m => decide ((m.schema? "Payment").map (·.view.members.all) = some [] ∧
      (m.schema? "Payment").map (·.view.members.parent) = some [identifier.inherited]))
    (by decide +kernel)
  exact ⟨m, hm, rfl, drops_payment, of_decide_eq_true shown⟩

/-- The members that a classical schema shows as its own and those that it inherits have the names
in common that its parent hands down and that it embeds as well. -/
theorem normalize_sharedNames (h : d.normalize c = .ok m) (classical : c.profile = .classical) :
    d.EachBecomes m fun s t => ∀ x,
      (declares t.view.members.vars x = true ∧ declares t.view.members.parent x = true) ↔
        m.HandsDown s x ∧ m.Embeds s x ∧ ¬ d.Drops s x := by
  obtain ⟨r, R, as, imports, out⟩ := exists_outcome h
  refine out.eachBecomes fun s _ x => ?_
  have notTagged : c.profile.isTaggedUnion = false := by rw [classical]; rfl
  have vars : declares ((s.normalize c R).finish c.naming as imports).view.members.vars x = true ↔
      (m.Declares s x ∨ m.Embeds s x) ∧ ¬ d.Drops s x := by
    have own : m.Declares s x ↔ ∃ p ∈ s.properties, s.isRedeclared R p = false ∧ p.name = x := by
      rw [out.declares_iff, Schema.declares_ownMembers]
    have direct : (s.members c R).vars =
        (s.directMembers R).filter fun p => !(s.droppedNames R).contains p.name := by
      rw [Schema.members_vars_of_classical notTagged, Schema.filter_members_all]
    rw [Schema.declares_category_finish Members.vars (by simp [Members.pruned]), direct,
      Property.declares_filter_name fun x => !(s.droppedNames R).contains x, Bool.and_eq_true,
      Schema.declares_directMembers, ← own, ← out.embeds_iff, Bool.not_eq_true', ← Bool.not_eq_true,
      List.contains_iff_mem, out.mem_droppedNames]
  rw [vars, out.declares_parent_iff]
  constructor
  · rintro ⟨⟨declared | embedded, kept⟩, received⟩
    · exact absurd declared received.2
    · exact ⟨received, embedded, kept⟩
  · rintro ⟨received, embedded, kept⟩
    exact ⟨⟨.inr embedded, kept⟩, received⟩

def invoices : Document where
  schemas := [
    (Schema.named "Entity").withProperties [identifier],
    (Schema.named "Numbered").withProperties [Property.plain "id" "id" "integer"],
    ((Schema.named "Invoice").withParent "Entity").composedOf .allOf ["Numbered"]]

theorem normalize_sharedNames_invoices : ∃ m, invoices.normalize {} = .ok m ∧
    ({} : Config).profile = .classical ∧ invoices.EachBecomes m fun s t => ∀ x,
      (declares t.view.members.vars x = true ∧ declares t.view.members.parent x = true) ↔
        m.HandsDown s x ∧ m.Embeds s x ∧ ¬ invoices.Drops s x := by
  obtain ⟨m, hm, _⟩ := exists_normalize_of_any (d := invoices) (c := {}) (P := fun _ => true)
    (by decide +kernel)
  exact ⟨m, hm, rfl, normalize_sharedNames hm rfl⟩

/-- An invoice shows one `id` as its own and inherits another. -/
theorem normalize_showsInherited_invoices : ∃ m, invoices.normalize {} = .ok m ∧
    (m.schema? "Invoice").map (·.view.members.vars) =
        some [(Property.plain "id" "id" "integer").inherited] ∧
      (m.schema? "Invoice").map (·.view.members.parent) = some [identifier.inherited] := by
  obtain ⟨m, hm, shown⟩ := exists_normalize_of_any (d := invoices) (c := {})
    (P := fun m => decide ((m.schema? "Invoice").map (·.view.members.vars) =
        some [(Property.plain "id" "id" "integer").inherited] ∧
      (m.schema? "Invoice").map (·.view.members.parent) = some [identifier.inherited]))
    (by decide +kernel)
  exact ⟨m, hm, of_decide_eq_true shown⟩

end Document

end ApiModel
