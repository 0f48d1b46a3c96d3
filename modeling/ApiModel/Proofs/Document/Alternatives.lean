import ApiModel.Proofs.Document.MemberNames
import ApiModel.Proofs.Registry.Alternatives

/-! What the alternatives of a schema take away from its members in a model. They take every name
that one of them has for a property of its own, unless the discriminator of the schema names that
property. The discriminator's own name is thereby safe, but not the name of a member that it only
names by its name in transmitted data. -/

namespace ApiModel

def Model.registry (m : Model) : Registry := Keyed.ofList m.schemas

theorem Members.category_map (f : List Property → List Property) (m : Members) :
    ∀ category ∈ pruned, category (m.map f) = f (category m) := by
  simp only [pruned, List.forall_mem_cons]
  exact ⟨rfl, rfl, rfl, rfl, rfl, rfl, List.forall_mem_nil _⟩

namespace Property

variable {l : List Property} {p : Property}

theorem mem_map_untagged_finished (as : List TagAssignment) (schema : String) :
    p ∈ ((sort l).map (retag as schema)).map untagged ↔ p ∈ l.map untagged := by
  rw [map_untagged_retag]
  exact ((sort_perm l).map untagged).mem_iff

theorem mem_map_untagged_filter {f : String → Bool} :
    p ∈ (l.filter fun q => f q.name).map untagged ↔ p ∈ l.map untagged ∧ f p.name = true := by
  simp only [List.mem_map, List.mem_filter]
  constructor
  · rintro ⟨q, ⟨hq, kept⟩, rfl⟩
    exact ⟨⟨q, hq, rfl⟩, kept⟩
  · rintro ⟨⟨q, hq, rfl⟩, kept⟩
    exact ⟨q, ⟨hq, kept⟩, rfl⟩

end Property

namespace Document

variable {c : Config} {d : Document} {m : Model} {r R : Registry} {as : List TagAssignment}
  {imports : String → List String} {s : Schema} {x : String}

theorem not_drops_discriminatorProperty (h : s.discriminatorProperty = some x) (d : Document) :
    ¬ d.Drops s x := by
  intro ⟨_, _, _, _, _, _, _, _, p, _, other, name⟩
  rw [Schema.discriminates, h, Option.any_some, Property.isNamed, name, beq_self_eq_true] at other
  cases other

namespace Outcome

variable (h : Outcome c d m r R as imports)
include h

theorem find?_registry (n : String) : m.registry.find? n = m.schema? n := by
  let become (s : Schema) := (s.normalize c R).finish c.naming as imports
  have name (s : Schema) : (become s).name = s.name := rfl
  have schemas : m.schemas = (r.map become name).toList := h.schemas
  rw [Model.registry, schemas, Keyed.ofList_toList, Model.schema?, schemas]
  rfl

theorem gathered_registry (s : Schema) : s.gathered c m.registry = s.gathered c R := by
  have alike : s.SeesAlike m.registry R := by
    intro n _
    rw [h.find?_registry, h.map_unmarkedOffer_schema?]
  exact alike.gathered c

end Outcome

/-- A member that was gathered is left in the end unless an alternative drops its name. -/
theorem normalize_prunedMembers (h : d.normalize c = .ok m) :
    d.EachBecomes m fun s t =>
      (∀ category ∈ Members.pruned, ∀ p,
        p ∈ (category t.view.members).map Property.untagged ↔
          p ∈ (category (s.gathered c m.registry)).map Property.untagged ∧ ¬ d.Drops s p.name) ∧
      ∀ x, s.discriminatorProperty = some x → ¬ d.Drops s x := by
  obtain ⟨r, R, as, imports, out⟩ := exists_outcome h
  refine out.eachBecomes fun s _ => ⟨fun category hc p => ?_, fun x discriminator => ?_⟩
  · have finished : category ((s.normalize c R).finish c.naming as imports).view.members =
        (Property.sort (category (s.members c R))).map (Property.retag as s.name) := by
      show category (((s.members c R).map Property.sort).map (·.map (Property.retag as s.name))) = _
      rw [Members.category_map _ _ category hc, Members.category_map _ _ category hc]
    rw [finished, Property.mem_map_untagged_finished, out.gathered_registry,
      Schema.members_eq_filter_gathered c R s category hc,
      Property.mem_map_untagged_filter (f := fun x => !(s.droppedNames R).contains x),
      Bool.not_eq_true', ← Bool.not_eq_true, List.contains_iff_mem, out.mem_droppedNames]
  · exact not_drops_discriminatorProperty discriminator d

def petKind : Property := (Property.plain "petKind" "pet-kind" "string").required

def shelteredPet : Schema :=
  (((Schema.named "Pet").withProperties [petKind]).withDiscriminator "pet-kind" []).composedOf
    .oneOf ["Cat"]

def shelter : Document where
  schemas := [
    (Schema.named "Cat").withProperties [Property.plain "petKind" "petKind" "string"],
    shelteredPet]

theorem normalize_prunedMembers_shelter : ∃ m, shelter.normalize {} = .ok m ∧
    shelter.EachBecomes m fun s t =>
      (∀ category ∈ Members.pruned, ∀ p,
        p ∈ (category t.view.members).map Property.untagged ↔
          p ∈ (category (s.gathered {} m.registry)).map Property.untagged ∧
            ¬ shelter.Drops s p.name) ∧
      ∀ x, s.discriminatorProperty = some x → ¬ shelter.Drops s x := by
  obtain ⟨m, hm, _⟩ := exists_normalize_of_any (d := shelter) (c := {}) (P := fun _ => true)
    (by decide +kernel)
  exact ⟨m, hm, normalize_prunedMembers hm⟩

/-- The discriminator names the property of the pet, which the alternative takes away. -/
theorem normalize_dropsDiscriminator_shelter : ∃ m, shelter.normalize {} = .ok m ∧
    shelteredPet.discriminates petKind = true ∧
      petKind ∈ (shelteredPet.gathered {} m.registry).vars ∧
      (m.schema? "Pet").map (·.view.members.vars) = some [] ∧
      (m.schema? "Pet").map (·.view.members.all) = some [] := by
  obtain ⟨m, hm, shown⟩ := exists_normalize_of_any (d := shelter) (c := {}) (P := fun m => decide (
    petKind ∈ (shelteredPet.gathered {} m.registry).vars ∧
      (m.schema? "Pet").map (·.view.members.vars) = some [] ∧
      (m.schema? "Pet").map (·.view.members.all) = some [])) (by decide +kernel)
  exact ⟨m, hm, by decide, of_decide_eq_true shown⟩

end Document

end ApiModel
