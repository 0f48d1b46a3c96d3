import ApiModel.Proofs.Property.Sorting
import ApiModel.Proofs.Registry.Settled

/-! The two profiles on one registry. They arrange the same members: a tagged union shows all of
them where a classical schema shows the direct ones, and what a schema hands down is the same in
both. -/

namespace ApiModel

open Property (firstOfEachName declares DistinctNames)

namespace Schema

variable {c d : Config} {r : Registry} {s : Schema}

theorem visibleMembers_of_classical (h : c.profile.isTaggedUnion = false) :
    visibleMembers c r s = directMembers r s := by
  rw [visibleMembers, visibleCandidates, h, if_neg Bool.false_ne_true, List.append_nil]
  exact Property.firstOfEachName_of_distinctNames (Property.distinctNames_firstOfEachName _)

theorem visibleMembers_of_taggedUnion (h : c.profile.isTaggedUnion = true) :
    visibleMembers c r s = firstOfEachName (directMembers r s ++ inheritedMembers r s) := by
  rw [visibleMembers, visibleCandidates, if_pos h]

theorem firstOfEachName_visibleMembers_append (c : Config) (r : Registry) (s : Schema) :
    firstOfEachName (visibleMembers c r s ++ inheritedMembers r s) =
      firstOfEachName (directMembers r s ++ inheritedMembers r s) := by
  cases h : c.profile.isTaggedUnion with
  | false => rw [visibleMembers_of_classical h]
  | true =>
    rw [visibleMembers_of_taggedUnion h, Property.firstOfEachName_firstOfEachName_append]
    apply Property.firstOfEachName_append_of_declared
    intro q hq
    exact Property.declares_iff.2 ⟨q, List.mem_append_right _ hq, rfl⟩

theorem members_all (c : Config) (r : Registry) (s : Schema) : (members c r s).all =
    (firstOfEachName (directMembers r s ++ inheritedMembers r s)).filter
      fun p => !(droppedNames r s).contains p.name := by
  rw [← firstOfEachName_visibleMembers_append c]
  rfl

theorem distinctNames_members_all (c : Config) (r : Registry) (s : Schema) :
    DistinctNames (members c r s).all := by
  rw [members_all]
  exact (Property.distinctNames_firstOfEachName _).filter _

theorem members_vars_of_taggedUnion (h : c.profile.isTaggedUnion = true) :
    (members c r s).vars = (members c r s).all := by
  rw [members_all, ← visibleMembers_of_taggedUnion h]
  rfl

theorem filter_declares_directMembers (r : Registry) (s : Schema) :
    (firstOfEachName (directMembers r s ++ inheritedMembers r s)).filter
      (fun p => declares (directMembers r s) p.name) = directMembers r s := by
  have distinct : firstOfEachName (directMembers r s) = directMembers r s :=
    Property.firstOfEachName_of_distinctNames (Property.distinctNames_firstOfEachName _)
  rw [Property.firstOfEachName_append, distinct, List.filter_append, List.filter_filter,
    List.filter_eq_self.2, List.filter_eq_nil_iff.2, List.append_nil]
  · intro p _
    simp only [Bool.and_not_self, Bool.false_eq_true, not_false_iff]
  · intro p hp
    exact Property.declares_iff.2 ⟨p, hp, rfl⟩

theorem filter_members_all (c : Config) (r : Registry) (s : Schema) :
    (members c r s).all.filter (fun p => declares (directMembers r s) p.name) =
      (directMembers r s).filter fun p => !(droppedNames r s).contains p.name := by
  rw [members_all, List.filter_comm, filter_declares_directMembers]

theorem members_vars_of_classical (h : c.profile.isTaggedUnion = false) : (members c r s).vars =
    (members c r s).all.filter fun p => declares (directMembers r s) p.name := by
  rw [filter_members_all, ← visibleMembers_of_classical h]
  rfl

theorem base_of_classical (h : c.profile.isTaggedUnion = false) :
    base c r s = s.parent.filter r.contains := by
  rw [base, h, if_neg Bool.false_ne_true, Registry.parent?]
  cases s.parent with
  | none => rfl
  | some parent =>
    rw [Option.bind_some, Option.filter_some, Keyed.contains]
    cases hp : r.find? parent with
    | none => rfl
    | some t => rw [Option.map_some, Keyed.key_of_find? hp, Option.isSome_some, if_pos rfl]

@[simp] theorem name_withSubtypeDefault (r : Registry) (s : Schema) (p : Property) :
    (withSubtypeDefault r s p).name = p.name := by
  unfold withSubtypeDefault
  split <;> rfl

theorem declares_ownMembers {x : String} : declares (ownMembers r s) x = true ↔
    ∃ p ∈ s.properties, isRedeclared r s p = false ∧ p.name = x := by
  simp only [Property.declares_iff, ownMembers, List.mem_map, List.mem_filter, Bool.not_eq_true']
  constructor
  · rintro ⟨_, ⟨p, ⟨hp, keep⟩, rfl⟩, rfl⟩
    exact ⟨p, hp, keep, (name_withSubtypeDefault r s p).symm⟩
  · rintro ⟨p, hp, keep, rfl⟩
    exact ⟨_, ⟨p, ⟨hp, keep⟩, rfl⟩, name_withSubtypeDefault r s p⟩

theorem mem_embeddedMembers {p : Property} : p ∈ embeddedMembers r s ↔
    ∃ k ∈ s.embedded, ∃ t, r.find? k.name = some t ∧ ∃ q ∈ t.view.members.all,
      declares (ownMembers r s) q.name = false ∧ q.inherited = p := by
  simp only [embeddedMembers, List.mem_flatMap, List.mem_filterMap, List.mem_map, List.mem_filter,
    Bool.not_eq_true', and_assoc]
  constructor
  · rintro ⟨t, ⟨k, hk, ht⟩, q, hq, new, rfl⟩
    exact ⟨k, hk, t, ht, q, hq, new, rfl⟩
  · rintro ⟨k, hk, t, ht, q, hq, new, rfl⟩
    exact ⟨t, ⟨k, hk, ht⟩, q, hq, new, rfl⟩

theorem mem_candidates {p : Property} :
    p ∈ candidates r s ↔ p ∈ ownMembers r s ∨ p ∈ embeddedMembers r s := by
  rw [candidates, readWriteCandidates, List.mem_append, List.mem_eraseDups, List.mem_filter,
    List.mem_filter, ← and_or_left, List.mem_append]
  cases p.isReadOnly <;> simp

theorem declares_directMembers {x : String} : declares (directMembers r s) x = true ↔
    (∃ p ∈ s.properties, isRedeclared r s p = false ∧ p.name = x) ∨
      ∃ k ∈ s.embedded, ∃ t, r.find? k.name = some t ∧ declares t.view.members.all x = true := by
  rw [← declares_ownMembers, directMembers, Property.declares_firstOfEachName]
  constructor
  · intro h
    obtain ⟨p, hp, rfl⟩ := Property.declares_iff.1 h
    rcases mem_candidates.1 hp with own | embedded
    · exact .inl (Property.declares_iff.2 ⟨p, own, rfl⟩)
    · obtain ⟨k, hk, t, ht, q, hq, _, rfl⟩ := mem_embeddedMembers.1 embedded
      exact .inr ⟨k, hk, t, ht, Property.declares_iff.2 ⟨q, hq, rfl⟩⟩
  · intro h
    -- An embedded member of an own name is left out, but then the own one has the name.
    by_cases own : declares (ownMembers r s) x = true
    · obtain ⟨p, hp, rfl⟩ := Property.declares_iff.1 own
      exact Property.declares_iff.2 ⟨p, mem_candidates.2 (.inl hp), rfl⟩
    · obtain ⟨k, hk, t, ht, held⟩ := h.resolve_left own
      obtain ⟨q, hq, rfl⟩ := Property.declares_iff.1 held
      have embedded := mem_embeddedMembers.2 ⟨k, hk, t, ht, q, hq, Bool.not_eq_true _ ▸ own, rfl⟩
      exact Property.declares_iff.2 ⟨_, mem_candidates.2 (.inr embedded), rfl⟩

end Schema

namespace Registry

variable {c d : Config} {r R T : Registry} {order : List String}

theorem offer_normalize_eq {s : Schema} (h : s.SeesSame R T) (c d : Config) :
    (s.normalize c R).offer = (s.normalize d T).offer := by
  show (s.discriminatorProperty, Property.sort (Schema.members c R s).all) =
    (s.discriminatorProperty, Property.sort (Schema.members d T s).all)
  rw [h.members, Schema.members_all c, Schema.members_all d]

/-- What the schemas hand down does not depend on the configuration. -/
theorem Settled.map_offer_find?_eq (hR : Settled c r R) (hT : Settled d r T)
    (plan : r.Schedule order) (n : String) :
    (R.find? n).map Schema.offer = (T.find? n).map Schema.offer := by
  have cores := hR.sameCore.trans hT.sameCore.symm
  refine hR.map_find?_eq hT plan (fun _ => rfl) ?_ n
  intro s hs u hu name deps
  have same : u = s := by
    have := Keyed.find?_of_mem hu
    rw [name, Keyed.find?_of_mem hs] at this
    exact (Option.some.inj this).symm
  subst same
  exact offer_normalize_eq (cores.seesSame (g := id) (fun _ => rfl) deps) c d

theorem Settled.seesSame (hR : Settled c r R) (hT : Settled d r T) (plan : r.Schedule order)
    (s : Schema) : s.SeesSame R T :=
  (hR.sameCore.trans hT.sameCore.symm).seesSame (g := id) (fun _ => rfl)
    fun n _ => hR.map_offer_find?_eq hT plan n

end Registry

end ApiModel
