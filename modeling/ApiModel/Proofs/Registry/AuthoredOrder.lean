import ApiModel.Proofs.Registry.Profiles
import ApiModel.Proofs.Registry.Tagging

/-! One schema whose properties and children are authored in another order. Names are distinct in
every list that is built for its view, so that each list is determined by what it holds once it is
sorted. -/

namespace ApiModel

open Property (DistinctNames declares firstOfEachName)

namespace Schema

def withoutEchoes (s : Schema) : Schema := { s with properties := [], children := [] }

/-- Authored alike, but for the order of properties and children. -/
structure Reordered (s t : Schema) : Prop where
  properties : s.properties.Perm t.properties
  children : s.children.Perm t.children
  rest : s.withoutEchoes = t.withoutEchoes

variable {c : Config} {r : Registry} {s t : Schema}

theorem find?_candidates (r : Registry) (s : Schema) (x : String) :
    (candidates r s).find? (·.name == x) =
      ((((ownMembers r s).filter (!·.isReadOnly)).find? (·.name == x)).or
        (((embeddedMembers r s).filter (!·.isReadOnly)).find? (·.name == x))).or
      ((((ownMembers r s).filter (·.isReadOnly)).find? (·.name == x)).or
        (((embeddedMembers r s).filter (·.isReadOnly)).find? (·.name == x))) := by
  rw [candidates, readWriteCandidates, List.find?_append, Property.find?_eraseDups,
    List.filter_append, List.filter_append, List.find?_append, List.find?_append]

theorem distinctNames_ownMembers (h : DistinctNames s.properties) (r : Registry) :
    DistinctNames (ownMembers r s) :=
  (h.filter _).map (name_withSubtypeDefault r s)

namespace Reordered

theorem symm (h : s.Reordered t) : t.Reordered s :=
  ⟨h.properties.symm, h.children.symm, h.rest.symm⟩

theorem exists_eq (h : s.Reordered t) : ∃ properties children,
    s.properties.Perm properties ∧ s.children.Perm children ∧
      t = { s with properties, children } := by
  refine ⟨t.properties, t.children, h.properties, h.children, ?_⟩
  calc
    t = { t.withoutEchoes with properties := t.properties, children := t.children } := rfl
    _ = { s.withoutEchoes with properties := t.properties, children := t.children } := by
      rw [h.rest]
    _ = { s with properties := t.properties, children := t.children } := rfl

theorem name (h : s.Reordered t) : s.name = t.name := by
  obtain ⟨_, _, _, _, rfl⟩ := h.exists_eq
  rfl

theorem outline (h : s.Reordered t) : s.outline = t.outline := by
  obtain ⟨_, _, _, _, rfl⟩ := h.exists_eq
  rfl

theorem mapView (h : s.Reordered t) (f : String → View → View) :
    Reordered { s with view := f s.name s.view } { t with view := f t.name t.view } := by
  obtain ⟨_, _, properties, children, rfl⟩ := h.exists_eq
  exact ⟨properties, children, rfl⟩

theorem retag (h : s.Reordered t) (as : List TagAssignment) :
    (s.retag as).Reordered (t.retag as) :=
  h.mapView fun name v => { v with members := v.members.map (·.map (Property.retag as name)) }

theorem addImports (h : s.Reordered t) (names : List String) :
    (s.addImports names).Reordered (t.addImports names) :=
  h.mapView fun _ v => { v with imports := v.imports.putAll names }

theorem assignModelImports (h : s.Reordered t) (n : Naming) :
    (s.assignModelImports n).Reordered (t.assignModelImports n) :=
  h.mapView fun _ v => { v with modelImports := v.imports.toList.map fun name =>
    { className := name, fileName := n.fileName name } }

theorem rel_map {f g : Schema → Schema} (change : ∀ s t, s.Reordered t → (f s).Reordered (g t))
    {a b : Option Schema} (h : Option.Rel Reordered a b) :
    Option.Rel Reordered (a.map f) (b.map g) := by
  cases h with
  | none => exact .none
  | some same => exact .some (change _ _ same)

variable (h : s.Reordered t) (r : Registry)
include h

theorem ownMembers : (ownMembers r s).Perm (ownMembers r t) := by
  obtain ⟨_, _, properties, _, rfl⟩ := h.exists_eq
  exact (properties.filter _).map _

theorem received :
    inheritedMembers r s = inheritedMembers r t ∧ embeddedMembers r s = embeddedMembers r t := by
  have own := Property.declares_perm (h.ownMembers r)
  obtain ⟨_, _, _, _, rfl⟩ := h.exists_eq
  exact received_congr rfl rfl own

theorem droppedNames : droppedNames r s = droppedNames r t := by
  obtain ⟨_, _, _, _, rfl⟩ := h.exists_eq
  rfl

variable (distinct : DistinctNames s.properties)
include distinct

theorem directMembers : (directMembers r s).Perm (directMembers r t) := by
  have own (p : Property → Bool) (x : String) :
      ((Schema.ownMembers r s).filter p).find? (·.name == x) =
        ((Schema.ownMembers r t).filter p).find? (·.name == x) :=
    find?_key_perm ((h.ownMembers r).filter p) ((distinctNames_ownMembers distinct r).filter p) x
  apply Property.firstOfEachName_perm
  intro x
  rw [find?_candidates, find?_candidates, own, own, (h.received r).2]

theorem find?_directMembers (x : String) : (Schema.directMembers r s).find? (·.name == x) =
    (Schema.directMembers r t).find? (·.name == x) :=
  find?_key_perm (h.directMembers r distinct) (Property.distinctNames_firstOfEachName _) x

theorem visibleMembers (c : Config) : (visibleMembers c r s).Perm (visibleMembers c r t) := by
  apply Property.firstOfEachName_perm
  intro x
  simp only [visibleCandidates, List.find?_append,
    h.find?_directMembers r distinct, (h.received r).1]

theorem allMembers (c : Config) : (Schema.members c r s).all.Perm (Schema.members c r t).all := by
  rw [members_all, members_all, h.droppedNames]
  apply List.Perm.filter
  apply Property.firstOfEachName_perm
  intro x
  simp only [List.find?_append,
    h.find?_directMembers r distinct, (h.received r).1]

theorem sortedMembers (c : Config) :
    (members c r s).map Property.sort = (members c r t).map Property.sort := by
  have sorted {l m : List Property} (perm : l.Perm m) (distinct : DistinctNames l)
      (p : Property → Bool) : Property.sort (l.filter p) = Property.sort (m.filter p) :=
    Property.sort_eq_of_perm (distinct.filter p) (perm.filter p)
  have visible := h.visibleMembers r distinct c
  have direct := h.directMembers r distinct
  have distinctVisible : DistinctNames (Schema.visibleMembers c r s) :=
    Property.distinctNames_firstOfEachName _
  have distinctDirect : DistinctNames (Schema.directMembers r s) :=
    Property.distinctNames_firstOfEachName _
  simp only [Members.map, Members.mk.injEq]
  refine ⟨?vars, ?all, ?required, ?optional, ?readOnly, ?readWrite, ?parent⟩
  case vars =>
    simp only [members, h.droppedNames]
    exact sorted visible distinctVisible _
  case all =>
    exact Property.sort_eq_of_perm (distinctNames_members_all c r s) (h.allMembers r distinct c)
  case required =>
    simp only [members, h.droppedNames]
    exact sorted (visible.filter _) (distinctVisible.filter _) _
  case optional =>
    simp only [members, h.droppedNames]
    exact sorted (visible.filter _) (distinctVisible.filter _) _
  case readOnly =>
    simp only [members, h.droppedNames]
    exact sorted (direct.filter _) (distinctDirect.filter _) _
  case readWrite =>
    simp only [members, h.droppedNames]
    exact sorted (direct.filter _) (distinctDirect.filter _) _
  case parent => exact congrArg Property.sort (h.received r).1

theorem importsFor (c : Config) : importsFor c r s (Schema.members c r s).all =
    importsFor c r t (Schema.members c r t).all := by
  have put := Keyed.putAll_perm ((h.allMembers r distinct c).filterMap Property.complexType)
  simp only [Schema.importsFor, put]
  obtain ⟨_, _, _, _, rfl⟩ := h.exists_eq
  rfl

theorem normalize (c : Config) :
    (s.normalize c r).withoutEchoes = (t.normalize c r).withoutEchoes := by
  have members := h.sortedMembers r distinct c
  have imports := h.importsFor r distinct c
  obtain ⟨_, _, _, _, rfl⟩ := h.exists_eq
  simp only [Schema.normalize, withoutEchoes, members, imports]
  rfl

end Reordered

end Schema

end ApiModel
