import ApiModel.Proofs.Registry.Provenance
import ApiModel.Proofs.Registry.Tagging

/-! How the categories of one schema fit together. All but the parent's members are parts of one
list, the list of all members. Sorting and tagging leave a part a part, and both keep the names
distinct and the order of the list. -/

namespace ApiModel

open Property (DistinctNames InOrder declares)

namespace Members

/-- The categories as parts of a list of all members, of which those with a name in `direct` do not
only come from the parent. -/
def arranged (profile : Profile) (direct : String → Bool) (all parent : List Property) : Members :=
  let vars := all.filter fun p => profile.isTaggedUnion || direct p.name
  let own := all.filter (direct ·.name)
  { vars
    all
    required := vars.filter (·.isRequired)
    optional := vars.filter (!·.isRequired)
    readOnly := own.filter (·.isReadOnly)
    readWrite := own.filter (!·.isReadOnly)
    parent }

/-- The categories of members fit together; in a tagged union two of them hold only members with a
name in `direct`. -/
structure Coherent (profile : Profile) (direct : String → Bool) (m : Members) : Prop where
  inOrder : ∀ l ∈ m.lists, InOrder l
  vars_sublist : m.vars.Sublist m.all
  required : m.required = m.vars.filter (·.isRequired)
  optional : m.optional = m.vars.filter (!·.isRequired)
  readOnly_of_classical : profile = .classical → m.readOnly = m.vars.filter (·.isReadOnly)
  readWrite_of_classical : profile = .classical → m.readWrite = m.vars.filter (!·.isReadOnly)
  readOnly_of_taggedUnion : profile = .taggedUnion →
    m.readOnly = (m.vars.filter (direct ·.name)).filter (·.isReadOnly)
  readWrite_of_taggedUnion : profile = .taggedUnion →
    m.readWrite = (m.vars.filter (direct ·.name)).filter (!·.isReadOnly)

variable {profile : Profile} {direct : String → Bool} {all parent : List Property}

theorem map_arranged {f : List Property → List Property}
    (parts : ∀ p : Property → Bool, (∀ q, p q.untagged = p q) →
      f (all.filter p) = (f all).filter p) :
    (arranged profile direct all parent).map f = arranged profile direct (f all) (f parent) := by
  have part (p q : Property → Bool) (hp : ∀ a, p a.untagged = p a) (hq : ∀ a, q a.untagged = q a) :
      f ((all.filter p).filter q) = ((f all).filter p).filter q := by
    rw [List.filter_filter, List.filter_filter]
    exact parts _ fun a => by rw [hp, hq]
  simp only [arranged, map, Members.mk.injEq, true_and, and_true]
  refine ⟨?vars, ?required, ?optional, ?readOnly, ?readWrite⟩
  case vars =>
    apply parts
    exact fun _ => rfl
  all_goals
    apply part
    · exact fun _ => rfl
    · exact fun _ => rfl

theorem sublist_of_mem_lists_arranged : ∀ l ∈ (arranged profile direct all parent).lists,
    l.Sublist all ∨ l.Sublist parent := by
  have part (p q : Property → Bool) : ((all.filter p).filter q).Sublist all :=
    List.filter_sublist.trans List.filter_sublist
  refine forall_mem_lists ?vars ?all ?required ?optional ?readOnly ?readWrite ?parent
  case vars => exact .inl List.filter_sublist
  case all => exact .inl (.refl all)
  case required => exact .inl (part _ _)
  case optional => exact .inl (part _ _)
  case readOnly => exact .inl (part _ _)
  case readWrite => exact .inl (part _ _)
  case parent => exact .inr (.refl parent)

theorem vars_arranged_of_taggedUnion : (arranged .taggedUnion direct all parent).vars = all :=
  List.filter_true all

theorem coherent_arranged (ordered : InOrder all) (orderedParent : InOrder parent) :
    (arranged profile direct all parent).Coherent profile direct where
  inOrder l hl := by
    rcases sublist_of_mem_lists_arranged l hl with part | part
    · exact ordered.sublist part
    · exact orderedParent.sublist part
  vars_sublist := List.filter_sublist
  required := rfl
  optional := rfl
  readOnly_of_classical h := by rw [h]; rfl
  readWrite_of_classical h := by rw [h]; rfl
  readOnly_of_taggedUnion h := by
    rw [h, vars_arranged_of_taggedUnion]
    rfl
  readWrite_of_taggedUnion h := by
    rw [h, vars_arranged_of_taggedUnion]
    rfl

end Members

theorem Property.InOrder.map_retag {l : List Property} (h : InOrder l) (as : List TagAssignment)
    (schema : String) : InOrder (l.map (retag as schema)) :=
  h.map (name_retag as schema) (apply_retag (f := sortKey) (fun _ => rfl) as schema)

namespace Schema

variable {c : Config} {r R : Registry} {s : Schema}

theorem distinctNames_inheritedMembers (h : DistinctNames (parentMembers r s)) :
    DistinctNames (inheritedMembers r s) :=
  (h.filter _).map fun _ => rfl

theorem members_eq_arranged (c : Config) (r : Registry) (s : Schema) :
    members c r s = .arranged c.profile (declares (directMembers r s)) (members c r s).all
      (inheritedMembers r s) := by
  have vars : (members c r s).vars = (members c r s).all.filter fun p =>
      c.profile.isTaggedUnion || declares (directMembers r s) p.name := by
    cases h : c.profile.isTaggedUnion with
    | false => exact members_vars_of_classical h
    | true =>
      rw [members_vars_of_taggedUnion h]
      exact (List.filter_true _).symm
  have own := filter_members_all c r s
  simp only [Members.arranged, ← vars, own]
  simp only [members, List.filter_comm]

theorem coherent_members (distinctParent : DistinctNames (parentMembers r s))
    (as : List TagAssignment) (name : String) :
    (((members c r s).map Property.sort).map (·.map (Property.retag as name))).Coherent c.profile
      (declares (directMembers r s)) := by
  have distinct := distinctNames_members_all c r s
  have distinctInherited := distinctNames_inheritedMembers distinctParent
  have sorted : (members c r s).map Property.sort = .arranged c.profile
      (declares (directMembers r s)) (Property.sort (members c r s).all)
        (Property.sort (inheritedMembers r s)) := by
    conv_lhs => rw [members_eq_arranged]
    exact Members.map_arranged fun p _ => Property.sort_filter distinct p
  rw [sorted, Members.map_arranged fun p tagless =>
    (Property.filter_map_of_erased (Property.untagged_retag as name) tagless _).symm]
  exact Members.coherent_arranged ((Property.inOrder_sort distinct).map_retag as name)
    ((Property.inOrder_sort distinctInherited).map_retag as name)

end Schema

namespace Registry.Settled

variable {c : Config} {r R : Registry}

theorem distinctNames_all (h : Settled c r R) {n : String} {t : Schema} (ht : R.find? n = some t) :
    DistinctNames t.view.members.all := by
  rw [h n] at ht
  obtain ⟨u, _, rfl⟩ := Option.map_eq_some_iff.1 ht
  exact (Schema.distinctNames_members_all c R u).perm (Property.sort_perm _).symm

theorem distinctNames_parentMembers (h : Settled c r R) (s : Schema) :
    DistinctNames (s.parentMembers R) := by
  unfold Schema.parentMembers
  cases hp : R.parent? s with
  | none => exact List.nodup_nil
  | some t =>
    obtain ⟨parent, _, ht⟩ := Option.bind_eq_some_iff.1 hp
    exact h.distinctNames_all ht

end Registry.Settled

end ApiModel
