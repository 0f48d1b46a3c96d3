import ApiModel.Proofs.Registry.DependenciesFirst
import ApiModel.Proofs.Registry.Profiles

/-! Where the members of one schema come from. An entry of any list is a property of its own or an
inherited copy of a member that it receives from another schema, and of a name that it declares
itself there is no copy. -/

namespace ApiModel

open Property (declares)

theorem Members.forall_mem_lists {P : List Property → Prop} {m : Members} (vars : P m.vars)
    (all : P m.all) (required : P m.required) (optional : P m.optional) (readOnly : P m.readOnly)
    (readWrite : P m.readWrite) (parent : P m.parent) : ∀ l ∈ m.lists, P l := by
  simp only [lists, List.forall_mem_cons]
  exact ⟨vars, all, required, optional, readOnly, readWrite, parent, List.forall_mem_nil P⟩

theorem Property.declares_filter_name (keep : String → Bool) (l : List Property) (x : String) :
    declares (l.filter fun p => keep p.name) x = (declares l x && keep x) := by
  rw [Bool.eq_iff_iff, Bool.and_eq_true, declares_iff, declares_iff]
  constructor
  · rintro ⟨p, hp, rfl⟩
    obtain ⟨mem, kept⟩ := List.mem_filter.1 hp
    exact ⟨⟨p, mem, rfl⟩, kept⟩
  · rintro ⟨⟨p, mem, rfl⟩, kept⟩
    exact ⟨p, List.mem_filter.2 ⟨mem, kept⟩, rfl⟩

theorem Property.name_eq_of_sameEnum {p q : Property} (h : p.sameEnum q = true) :
    p.name = q.name := by
  simp only [sameEnum, Bool.and_eq_true, beq_iff_eq] at h
  exact h.1.2

namespace Schema

variable {c : Config} {r : Registry} {s : Schema} {x : String} {p : Property}

theorem mem_alternatives {k : Component} : k ∈ s.alternatives ↔
    k ∈ s.composedFrom ∧ k.kind ≠ .allOf ∧ k.name ≠ "Null" ∧ k.name ≠ s.name := by
  simp only [alternatives, List.mem_filter, Component.isAlternative, Component.isNull,
    Bool.and_eq_true, Bool.not_eq_true', bne_iff_ne, beq_eq_false_iff_ne, and_assoc]

/-- `p` is among all the members of some schema that `s` takes from. -/
def Receives (find? : String → Option Schema) (s : Schema) (p : Property) : Prop :=
  ∃ n u, s.TakesFrom n ∧ find? n = some u ∧ p ∈ u.view.members.all

theorem mem_parentMembers : p ∈ parentMembers r s ↔
    ∃ n u, s.parent = some n ∧ r.find? n = some u ∧ p ∈ u.view.members.all := by
  unfold parentMembers Registry.parent?
  cases s.parent with
  | none => simp
  | some parent =>
    cases hu : r.find? parent with
    | none => simp [hu]
    | some u => simp [hu]

theorem receives_iff : s.Receives r.find? p ↔ p ∈ parentMembers r s ∨
    ∃ k ∈ s.embedded, ∃ u, r.find? k.name = some u ∧ p ∈ u.view.members.all := by
  rw [mem_parentMembers]
  constructor
  · rintro ⟨n, u, parent | ⟨other, k, hk, kind, rfl⟩, hu, hp⟩
    · exact .inl ⟨n, u, parent, hu, hp⟩
    · exact .inr ⟨k, mem_embedded.2 ⟨hk, kind, other⟩, u, hu, hp⟩
  · rintro (⟨n, u, parent, hu, hp⟩ | ⟨k, hk, u, hu, hp⟩)
    · exact ⟨n, u, .inl parent, hu, hp⟩
    · obtain ⟨mem, kind, other⟩ := mem_embedded.1 hk
      exact ⟨k.name, u, .inr ⟨other, k, mem, kind, rfl⟩, hu, hp⟩

theorem mem_inheritedMembers_or_embeddedMembers :
    p ∈ inheritedMembers r s ∨ p ∈ embeddedMembers r s ↔
      ∃ q, s.Receives r.find? q ∧ declares (ownMembers r s) q.name = false ∧ q.inherited = p := by
  simp only [receives_iff, mem_embeddedMembers, inheritedMembers, List.mem_map, List.mem_filter,
    Bool.not_eq_true', and_assoc]
  constructor
  · rintro (⟨q, hq, new, rfl⟩ | ⟨k, hk, u, hu, q, hq, new, rfl⟩)
    · exact ⟨q, .inl hq, new, rfl⟩
    · exact ⟨q, .inr ⟨k, hk, u, hu, hq⟩, new, rfl⟩
  · rintro ⟨q, hq | ⟨k, hk, u, hu, hq⟩, new, rfl⟩
    · exact .inl ⟨q, hq, new, rfl⟩
    · exact .inr ⟨k, hk, u, hu, q, hq, new, rfl⟩

theorem mem_direct_or_inherited_of_mem_lists : ∀ l ∈ (members c r s).lists, ∀ p ∈ l,
    p ∈ directMembers r s ∨ p ∈ inheritedMembers r s := by
  have visible : ∀ p ∈ visibleMembers c r s, p ∈ directMembers r s ∨ p ∈ inheritedMembers r s := by
    intro p hp
    have shown := (Property.firstOfEachName_sublist _).subset hp
    rw [visibleCandidates] at shown
    rcases List.mem_append.1 shown with direct | inherited
    · exact .inl direct
    · split at inherited
      · exact .inr inherited
      · exact (List.not_mem_nil inherited).elim
  refine Members.forall_mem_lists ?vars ?all ?required ?optional ?readOnly ?readWrite ?parent
  case vars => exact fun p hp => visible p (List.mem_of_mem_filter hp)
  case all =>
    intro p hp
    have first := (Property.firstOfEachName_sublist _).subset (List.mem_of_mem_filter hp)
    exact (List.mem_append.1 first).elim (visible p) .inr
  case required => exact fun p hp => visible p (List.mem_of_mem_filter (List.mem_of_mem_filter hp))
  case optional => exact fun p hp => visible p (List.mem_of_mem_filter (List.mem_of_mem_filter hp))
  case readOnly => exact fun p hp => .inl (List.mem_of_mem_filter (List.mem_of_mem_filter hp))
  case readWrite => exact fun p hp => .inl (List.mem_of_mem_filter (List.mem_of_mem_filter hp))
  case parent => exact fun p hp => .inr hp

theorem own_or_received (h : p ∈ directMembers r s ∨ p ∈ inheritedMembers r s) :
    p ∈ ownMembers r s ∨
      ∃ q, s.Receives r.find? q ∧ declares (ownMembers r s) q.name = false ∧ q.inherited = p := by
  rw [← mem_inheritedMembers_or_embeddedMembers]
  rcases h with direct | inherited
  · rcases mem_candidates.1 ((Property.firstOfEachName_sublist _).subset direct) with own | embedded
    · exact .inl own
    · exact .inr (.inr embedded)
  · exact .inr (.inl inherited)

theorem exists_receives_name_iff : (∃ q, s.Receives r.find? q ∧ q.name = x) ↔
    declares (parentMembers r s) x = true ∨
      ∃ k ∈ s.embedded, ∃ u, r.find? k.name = some u ∧ declares u.view.members.all x = true := by
  simp only [receives_iff, Property.declares_iff]
  constructor
  · rintro ⟨q, hq | ⟨k, hk, u, hu, hq⟩, rfl⟩
    · exact .inl ⟨q, hq, rfl⟩
    · exact .inr ⟨k, hk, u, hu, q, hq, rfl⟩
  · rintro (⟨q, hq, rfl⟩ | ⟨k, hk, u, hu, q, hq, rfl⟩)
    · exact ⟨q, .inl hq, rfl⟩
    · exact ⟨q, .inr ⟨k, hk, u, hu, hq⟩, rfl⟩

theorem declares_inheritedMembers : declares (inheritedMembers r s) x = true ↔
    declares (parentMembers r s) x = true ∧ declares (ownMembers r s) x = false := by
  have copies : declares (inheritedMembers r s) x =
      declares ((parentMembers r s).filter fun p => !declares (ownMembers r s) p.name) x :=
    List.any_map
  rw [copies, Property.declares_filter_name fun x => !declares (ownMembers r s) x,
    Bool.and_eq_true, Bool.not_eq_true']

theorem declares_properties_or_parentMembers :
    declares s.properties x = true ∨ declares (parentMembers r s) x = true ↔
      declares (ownMembers r s) x = true ∨ declares (parentMembers r s) x = true := by
  rw [declares_ownMembers]
  constructor
  · rintro (declared | received)
    · obtain ⟨p, hp, rfl⟩ := Property.declares_iff.1 declared
      cases again : isRedeclared r s p with
      | false => exact .inl ⟨p, hp, again, rfl⟩
      | true =>
        obtain ⟨q, hq, same⟩ := List.any_eq_true.1 again
        exact .inr (Property.declares_iff.2 ⟨q, hq, (Property.name_eq_of_sameEnum same).symm⟩)
    · exact .inr received
  · rintro (⟨p, hp, _, name⟩ | received)
    · exact .inl (Property.declares_iff.2 ⟨p, hp, name⟩)
    · exact .inr received

theorem declares_direct_append_inherited :
    declares (directMembers r s ++ inheritedMembers r s) x = true ↔
      declares s.properties x = true ∨ ∃ q, s.Receives r.find? q ∧ q.name = x := by
  have append : declares (directMembers r s ++ inheritedMembers r s) x =
      (declares (directMembers r s) x || declares (inheritedMembers r s) x) := List.any_append
  rw [append, Bool.or_eq_true, declares_directMembers, ← declares_ownMembers,
    declares_inheritedMembers, exists_receives_name_iff, ← or_assoc,
    declares_properties_or_parentMembers]
  cases declares (ownMembers r s) x <;> simp [or_comm]

theorem declares_members_all : declares (members c r s).all x = true ↔
    (declares s.properties x = true ∨ ∃ q, s.Receives r.find? q ∧ q.name = x) ∧
      x ∉ droppedNames r s := by
  rw [members_all, Property.declares_filter_name fun x => !(droppedNames r s).contains x,
    Property.declares_firstOfEachName, Bool.and_eq_true, declares_direct_append_inherited,
    Bool.not_eq_true', ← Bool.not_eq_true, List.contains_iff_mem]

end Schema

end ApiModel
