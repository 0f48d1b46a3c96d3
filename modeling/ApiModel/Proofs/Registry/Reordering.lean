import ApiModel.Proofs.Registry.AuthoredOrder
import ApiModel.Proofs.Registry.Related
import ApiModel.Proofs.Registry.Renormalization

/-! Registries whose schemas are authored in another order. Every stage of a run keeps two such
registries alike, with the same views: the dependencies come first in both, and children are found
in the order of their names. -/

namespace ApiModel

open Property (DistinctNames)

namespace Registry

/-- Under each name the two registries hold schemas that are authored alike but for order. -/
def Reordered (r t : Registry) : Prop := ∀ n, Option.Rel Schema.Reordered (r.find? n) (t.find? n)

variable {c : Config} {r t R T : Registry} {order : List String}

theorem reordered_of_mem (right : ∀ s ∈ r.toList, ∃ u ∈ t.toList, s.Reordered u)
    (left : ∀ u ∈ t.toList, ∃ s ∈ r.toList, s.Reordered u) : r.Reordered t := by
  intro n
  cases hs : r.find? n with
  | none =>
    cases hu : t.find? n with
    | none => exact .none
    | some u =>
      obtain ⟨mem, rfl⟩ := Keyed.find?_eq_some_iff.1 hu
      obtain ⟨s, hs', same⟩ := left u mem
      rw [← same.name, Keyed.find?_of_mem hs'] at hs
      cases hs
  | some s =>
    obtain ⟨mem, rfl⟩ := Keyed.find?_eq_some_iff.1 hs
    obtain ⟨u, hu, same⟩ := right s mem
    rw [same.name, Keyed.find?_of_mem hu]
    exact .some same

namespace Reordered

theorem related (h : r.Reordered t) : Related Schema.Reordered r t := h

theorem find?_cases (h : r.Reordered t) (n : String) :
    (r.find? n = none ∧ t.find? n = none) ∨
      ∃ s u, r.find? n = some s ∧ t.find? n = some u ∧ s.Reordered u :=
  h.related.find?_cases n

theorem find? (h : r.Reordered t) {n : String} {s : Schema} (hs : r.find? n = some s) :
    ∃ u, t.find? n = some u ∧ s.Reordered u := h.related.find? hs

theorem symm (h : r.Reordered t) : t.Reordered r := by
  intro n
  rcases h.find?_cases n with ⟨hr, ht⟩ | ⟨s, u, hr, ht, same⟩
  · rw [hr, ht]
    exact .none
  · rw [hr, ht]
    exact .some same.symm

theorem map_find? {β : Type} {f : Schema → β} (hf : ∀ s u, s.Reordered u → f s = f u)
    (h : r.Reordered t) (n : String) : (r.find? n).map f = (t.find? n).map f :=
  h.related.map_find? hf n

theorem contains (h : r.Reordered t) (n : String) : r.contains n = t.contains n :=
  h.related.contains n

theorem dependencyOrder (h : r.Reordered t) : r.dependencyOrder = t.dependencyOrder :=
  dependencyOrder_congr (h.map_find? fun _ _ same => same.outline)

theorem declares (h : r.Reordered t) {n : String} {p : Property} (decl : r.Declares n p) :
    t.Declares n p := by
  obtain ⟨s, hs, hp⟩ := decl
  obtain ⟨u, hu, same⟩ := h.find? hs
  exact ⟨u, hu, same.properties.mem_iff.1 hp⟩

theorem withoutEchoes_settled (h : r.Reordered t)
    (distinct : ∀ s ∈ r.toList, DistinctNames s.properties) (hR : Settled c r R)
    (hT : Settled c t T) (plan : r.Schedule order) (n : String) :
    (R.find? n).map Schema.withoutEchoes = (T.find? n).map Schema.withoutEchoes := by
  refine hR.map_find?_eq hT plan h.contains ?_ n
  intro s hs u hu name deps
  obtain ⟨u', hu', same⟩ := h.find? (Keyed.find?_of_mem hs)
  rw [← name, Keyed.find?_of_mem hu, Option.some_inj] at hu'
  subst hu'
  -- First to the other registry with `s` as it is, then to the other order of `s`.
  have sees : s.SeesSame R T := by
    refine .of_offers (fun d hd => ?_) fun k _ p => ⟨fun decl => ?_, fun decl => ?_⟩
    · have := congrArg (Option.map Schema.offer) (deps d hd)
      rw [Option.map_map, Option.map_map] at this
      exact this
    · exact hT.sameCore.symm.declares (h.declares (hR.sameCore.declares decl))
    · exact hR.sameCore.symm.declares (h.symm.declares (hT.sameCore.declares decl))
  rw [sees.normalize]
  exact same.normalize T (distinct s hs) c

theorem settled (h : r.Reordered t) (distinct : ∀ s ∈ r.toList, DistinctNames s.properties)
    (hR : Settled c r R) (hT : Settled c t T) (plan : r.Schedule order) : R.Reordered T := by
  intro n
  have rest := h.withoutEchoes_settled distinct hR hT plan n
  rw [hR n, hT n] at rest ⊢
  rcases h.find?_cases n with ⟨hr, ht⟩ | ⟨s, u, hr, ht, same⟩
  · rw [hr, ht]
    exact .none
  · rw [hr, ht] at rest ⊢
    refine .some ⟨same.properties, same.children, ?_⟩
    simpa only [Option.map_some, Option.some_inj] using rest

theorem children (h : r.Reordered t) (n : String) : r.children n = t.children n := by
  have declared : (((r.find? n).map (·.children)).getD []).Perm
      (((t.find? n).map (·.children)).getD []) := by
    rcases h.find?_cases n with ⟨hr, ht⟩ | ⟨s, u, hr, ht, same⟩
    · rw [hr, ht]
    · rw [hr, ht]
      exact same.children
  have linked := linked_of_outline (h.map_find? fun _ _ same => same.outline) n
  show Keyed.putAll ∅ (_ ++ _) = Keyed.putAll ∅ (_ ++ _)
  rw [linked]
  exact Keyed.putAll_perm (declared.append_right _) ∅

theorem keepsTags : KeepsTags Schema.Reordered where
  discriminator s u same := by
    obtain ⟨_, _, _, _, rfl⟩ := same.exists_eq
    rfl
  ofChild d b b' s u base child := by
    obtain ⟨_, _, _, _, rfl⟩ := base.exists_eq
    obtain ⟨_, _, _, _, rfl⟩ := child.exists_eq
    rfl

theorem assignTags (h : r.Reordered t) (c : Config) (order : List String) :
    (r.assignTags c order).Reordered (t.assignTags c order) := by
  cases hc : c.profile.isTaggedUnion with
  | false => rwa [assignTags_of_classical hc, assignTags_of_classical hc]
  | true =>
    intro n
    have children (n : String) (_ : r.contains n = true) : r.children n = t.children n :=
      h.children n
    have assigned := h.related.tagAssignments keepsTags children
    have imported := h.related.importedInTurn keepsTags children order n
    rw [find?_assignTags hc, find?_assignTags hc, funext assigned, imported]
    exact Schema.Reordered.rel_map (fun _ _ same => (same.retag _).addImports _) (h n)

theorem normalize (h : r.Reordered t) (distinct : ∀ s ∈ r.toList, DistinctNames s.properties)
    (hR : r.normalize c = .ok R) : ∃ T, t.normalize c = .ok T ∧ R.Reordered T := by
  obtain ⟨order, plan, rfl⟩ := normalize_eq_ok_iff.1 hR
  have plan' := h.dependencyOrder ▸ plan
  refine ⟨_, normalize_eq_ok_iff.2 ⟨order, plan', rfl⟩, fun n => ?_⟩
  have schedule := schedule_of_dependencyOrder plan
  have settled := h.settled distinct (schedule.settled c)
    ((schedule_of_dependencyOrder plan').settled c) schedule
  rw [find?_assignModelImports, find?_assignModelImports]
  exact Schema.Reordered.rel_map (fun _ _ same => same.assignModelImports c.naming)
    (settled.assignTags c order n)

end Reordered

end Registry

end ApiModel
