import Mathlib.Data.Option.Basic
import ApiModel.Proofs.Registry.Tagging

/-! Registries that hold related schemas under each name. The assignment of tags and imports does
the same in two of them, if they have the same children and related schemas agree on what it looks
at. -/

namespace ApiModel.Registry

/-- Under each name the registries hold two schemas that `Q` relates, or none. -/
def Related (Q : Schema → Schema → Prop) (r t : Registry) : Prop :=
  ∀ n, Option.Rel Q (r.find? n) (t.find? n)

/-- `Q` relates only schemas that are taken alike as bases and as children. -/
structure KeepsTags (Q : Schema → Schema → Prop) : Prop where
  discriminator : ∀ s u, Q s u → s.discriminator = u.discriminator
  ofChild : ∀ d b b' s u, Q b b' → Q s u →
    TagAssignment.ofChild d b s = TagAssignment.ofChild d b' u

theorem linked_of_outline {r t : Registry}
    (h : ∀ n, (r.find? n).map Schema.outline = (t.find? n).map Schema.outline) (n : String) :
    (r.toList.filter (·.parent == some n)).map (·.name) =
      (t.toList.filter (·.parent == some n)).map (·.name) := by
  have outlined (l : List Schema) : (l.filter (·.parent == some n)).map (·.name) =
      ((l.map Schema.outline).filter (·.parent == some n)).map (·.name) := by
    rw [List.filter_map, List.map_map]
    rfl
  rw [outlined, Keyed.toList_map_eq Schema.name_outline h, ← outlined]

theorem contains_of_base? {r : Registry} {n : String} {b : Schema} {d : Discriminator}
    (h : r.base? n = some (b, d)) : r.contains n = true := by
  obtain ⟨s, hs, _⟩ := Option.bind_eq_some_iff.1 h
  exact Keyed.contains_iff.2 ⟨s, hs⟩

namespace Related

variable {Q : Schema → Schema → Prop} {r t : Registry}

section
variable (h : Related Q r t)
include h

theorem find?_cases (n : String) : (r.find? n = none ∧ t.find? n = none) ∨
    ∃ s u, r.find? n = some s ∧ t.find? n = some u ∧ Q s u := by
  have rel := h n
  generalize r.find? n = s, t.find? n = u at rel
  cases rel with
  | none => exact .inl ⟨rfl, rfl⟩
  | some same => exact .inr ⟨_, _, rfl, rfl, same⟩

theorem find? {n : String} {s : Schema} (hs : r.find? n = some s) :
    ∃ u, t.find? n = some u ∧ Q s u := by
  rcases h.find?_cases n with ⟨hr, _⟩ | ⟨s', u, hr, hu, same⟩
  · rw [hr] at hs
    cases hs
  · rw [hr, Option.some_inj] at hs
    exact ⟨u, hu, hs ▸ same⟩

theorem map_find? {β : Type} {f g : Schema → β} (hf : ∀ s u, Q s u → f s = g u) (n : String) :
    (r.find? n).map f = (t.find? n).map g := by
  rcases h.find?_cases n with ⟨hr, ht⟩ | ⟨s, u, hr, ht, same⟩
  · rw [hr, ht]
    rfl
  · rw [hr, ht, Option.map_some, Option.map_some, hf s u same]

theorem contains (n : String) : r.contains n = t.contains n := by
  have found := congrArg Option.isSome (h.map_find? (f := fun _ => ()) (g := fun _ => ())
    (fun _ _ _ => rfl) n)
  rwa [Option.isSome_map, Option.isSome_map] at found

theorem base? (keeps : KeepsTags Q) (n : String) : (r.base? n = none ∧ t.base? n = none) ∨
    ∃ s u d, r.base? n = some (s, d) ∧ t.base? n = some (u, d) ∧ Q s u := by
  unfold Registry.base?
  rcases h.find?_cases n with ⟨hr, ht⟩ | ⟨s, u, hr, ht, same⟩
  · rw [hr, ht]
    exact .inl ⟨rfl, rfl⟩
  · rw [hr, ht, Option.bind_some, Option.bind_some, ← keeps.discriminator s u same]
    cases s.discriminator with
    | none => exact .inl ⟨rfl, rfl⟩
    | some d => exact .inr ⟨s, u, d, rfl, rfl, same⟩

theorem filterMap_childSchemas {β : Type} {f g : Schema → Option β} {n : String}
    (children : r.children n = t.children n)
    (hf : ∀ s u, s.name = u.name → Q s u → f s = g u) :
    (r.childSchemas n).filterMap f = (t.childSchemas n).filterMap g := by
  unfold childSchemas
  rw [List.filterMap_filterMap, List.filterMap_filterMap, children]
  apply List.filterMap_congr
  intro child _
  rcases h.find?_cases child with ⟨hr, ht⟩ | ⟨s, u, hr, ht, same⟩
  · rw [hr, ht]
    rfl
  · rw [hr, ht]
    exact hf s u ((Keyed.key_of_find? hr).trans (Keyed.key_of_find? ht).symm) same

theorem map_name_childSchemas {n : String} (children : r.children n = t.children n) :
    (r.childSchemas n).map (·.name) = (t.childSchemas n).map (·.name) := by
  rw [← List.filterMap_eq_map]
  exact h.filterMap_childSchemas children fun s u name _ => congrArg some name

end

variable (h : Related Q r t) (keeps : KeepsTags Q)
  (children : ∀ n, r.contains n = true → r.children n = t.children n)
include h keeps children

theorem tagAssignments (n : String) : r.tagAssignments n = t.tagAssignments n := by
  unfold Registry.tagAssignments
  rcases h.base? keeps n with ⟨hr, ht⟩ | ⟨b, b', d, hr, ht, same⟩
  · rw [hr, ht]
  · have same_children := children _ (contains_of_base? hr)
    rw [hr, ht]
    exact h.filterMap_childSchemas same_children fun s u _ child =>
      keeps.ofChild d b b' s u same child

theorem importedInTurn (order : List String) (n : String) :
    r.importedInTurn order n = t.importedInTurn order n := by
  have imported : r.importedChildren = t.importedChildren := by
    funext name
    unfold importedChildren
    rcases h.base? keeps name with ⟨hr, ht⟩ | ⟨b, b', d, hr, ht, _⟩
    · rw [hr, ht]
    · have same_children := children _ (contains_of_base? hr)
      rw [hr, ht]
      show ((r.childSchemas name).map (·.name)).filter _ = _
      rw [h.map_name_childSchemas same_children]
  unfold Registry.importedInTurn
  rw [imported]

end Related

end ApiModel.Registry
