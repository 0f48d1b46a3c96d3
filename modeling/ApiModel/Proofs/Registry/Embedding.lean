import ApiModel.Proofs.Registry.AuthoredOrder
import ApiModel.Proofs.Registry.Provenance

/-! Which definition counts where several embedded schemas have a member of one name. A definition
that can be written goes before all that are read-only; apart from that the schema that is embedded
first decides. -/

namespace ApiModel

open Property (DistinctNames declares firstOfEachName)

namespace Property

/-- Of several definitions of one name the first that can be written, or else the first. -/
def preferred (l : List Property) : Option Property := (l.find? (!·.isReadOnly)).or l.head?

theorem preferred_eq (l : List Property) :
    preferred l = (l.find? (!·.isReadOnly)).or (l.find? (·.isReadOnly)) := by
  unfold preferred
  cases h : l.find? (!·.isReadOnly) with
  | some q => rfl
  | none =>
    cases l with
    | nil => rfl
    | cons p ps =>
      have readOnly : p.isReadOnly = true := by
        simpa using List.find?_eq_none.1 h p List.mem_cons_self
      rw [Option.none_or, Option.none_or, List.head?_cons, List.find?_cons_of_pos readOnly]

theorem preferred_map_inherited (l : List Property) :
    preferred (l.map inherited) = (preferred l).map inherited := by
  rw [preferred, List.find?_map, List.head?_map, ← Option.map_or]
  rfl

end Property

namespace Schema

def definitions (find? : String → Option Schema) (s : Schema) (x : String) : List Property :=
  s.embedded.filterMap fun k => (find? k.name).bind fun t =>
    t.view.members.all.find? (·.name == x)

variable {c : Config} {r : Registry} {s : Schema} {x : String}

theorem find?_filter_copies {l : List Property} (distinct : DistinctNames l)
    {f : String → Bool} (kept : f x = true) {p : Property → Bool}
    (copies : ∀ q, p q.inherited = p q) :
    (((l.filter fun q => f q.name).map Property.inherited).filter p).find? (·.name == x) =
      ((l.find? (·.name == x)).filter p).map Property.inherited := by
  have same : p ∘ Property.inherited = p := funext copies
  have named : (fun q : Property => q.name == x) ∘ Property.inherited = (·.name == x) := rfl
  rw [List.filter_map, same, List.find?_map, named, List.filter_comm,
    Property.find?_filter_name kept, Property.find?_filter_of_distinctNames distinct]

theorem find?_filter_embeddedMembers
    (distinct : ∀ n t, r.find? n = some t → DistinctNames t.view.members.all)
    (new : declares (ownMembers r s) x = false) {p : Property → Bool}
    (copies : ∀ q, p q.inherited = p q) :
    ((embeddedMembers r s).filter p).find? (·.name == x) =
      ((definitions r.find? s x).find? p).map Property.inherited := by
  simp only [embeddedMembers, definitions]
  induction s.embedded with
  | nil => rfl
  | cons k ks ih =>
    cases hk : r.find? k.name with
    | none =>
      simp only [List.filterMap_cons, hk, Option.bind_none]
      exact ih
    | some t =>
      have copy := find?_filter_copies (distinct k.name t hk)
        (f := fun y => !declares (ownMembers r s) y) (by rw [new]; rfl) copies
      simp only [List.filterMap_cons, hk, Option.bind_some, List.flatMap_cons, List.filter_append,
        List.find?_append]
      rw [copy, ih]
      cases t.view.members.all.find? (·.name == x) with
      | none => rfl
      | some q => cases hq : p q <;> simp [Option.filter, hq]

theorem declares_ownMembers_of_new (new : declares s.properties x = false) (r : Registry) :
    declares (ownMembers r s) x = false := by
  rw [← Bool.not_eq_true, declares_ownMembers]
  intro ⟨p, hp, _, name⟩
  have declared : declares s.properties x = true := Property.declares_iff.2 ⟨p, hp, name⟩
  rw [new] at declared
  cases declared

theorem find?_directMembers_of_new
    (distinct : ∀ n t, r.find? n = some t → DistinctNames t.view.members.all)
    (new : declares s.properties x = false) :
    (directMembers r s).find? (·.name == x) =
      (Property.preferred (definitions r.find? s x)).map Property.inherited := by
  have undeclared := declares_ownMembers_of_new new r
  have own (p : Property → Bool) : ((ownMembers r s).filter p).find? (·.name == x) = none := by
    have none := List.find?_eq_none.1 (Property.find?_name_eq_none_iff.2 undeclared)
    rw [List.find?_eq_none]
    intro q hq
    exact none q (List.mem_of_mem_filter hq)
  have embedded {p : Property → Bool} (copies : ∀ q, p q.inherited = p q) :=
    find?_filter_embeddedMembers distinct undeclared copies
  rw [directMembers, Property.find?_firstOfEachName, find?_candidates, own, own, Option.none_or,
    Option.none_or, embedded fun _ => rfl, embedded fun _ => rfl, ← Option.map_or,
    ← Property.preferred_eq]

theorem find?_members_of_direct {p : Property} (kept : x ∉ droppedNames r s)
    (direct : (directMembers r s).find? (·.name == x) = some p) :
    (members c r s).vars.find? (·.name == x) = some p ∧
      (members c r s).all.find? (·.name == x) = some p := by
  have keep (l : List Property) : (l.filter fun q => !(droppedNames r s).contains q.name).find?
      (·.name == x) = l.find? (·.name == x) := by
    apply Property.find?_filter_name (f := fun y => !(droppedNames r s).contains y)
    simpa [List.contains_iff_mem] using kept
  constructor
  · show ((visibleMembers c r s).filter fun q => !(droppedNames r s).contains q.name).find? _ = _
    rw [keep, visibleMembers, Property.find?_firstOfEachName, visibleCandidates, List.find?_append,
      direct, Option.some_or]
  · rw [members_all, keep, Property.find?_firstOfEachName, List.find?_append, direct,
      Option.some_or]

end Schema

end ApiModel
