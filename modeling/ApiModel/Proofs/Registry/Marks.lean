import ApiModel.Proofs.Registry.Labels
import ApiModel.Proofs.Registry.Provenance
import ApiModel.Proofs.Registry.Related

/-! The two fields of a property that normalization computes, whether it is inherited and its tag.
An author may set them all the same. What is authored there stays with the members that a schema
declares itself and gets no further: the copies that others make of them are marked anew. -/

namespace ApiModel

open Property (DistinctNames declares firstOfEachName)

namespace Property

/-- The entry with the marks of `p`, but for a tag that it has itself. -/
def markedBy (e p : Property) : Property :=
  { e with isInherited := p.isInherited, tag := e.tag.or p.tag }

/-- The entry with the marks that `own` has under its name. -/
def marked (own : List Property) (e : Property) : Property :=
  match own.find? (·.name == e.name) with
  | none => e
  | some p => e.markedBy p

theorem ext_unmarked {p q : Property} (rest : p.unmarked = q.unmarked)
    (inherited : p.isInherited = q.isInherited) (tag : p.tag = q.tag) : p = q :=
  calc
    p = { p.unmarked with isInherited := p.isInherited, tag := p.tag } := rfl
    _ = { q.unmarked with isInherited := q.isInherited, tag := q.tag } := by
      rw [rest, inherited, tag]
    _ = q := rfl

variable {own : List Property} {e : Property}

theorem unmarked_marked (own : List Property) (e : Property) :
    (e.marked own).unmarked = e.unmarked := by
  unfold marked
  split <;> rfl

theorem apply_marked {β : Type} {f : Property → β} (markless : ∀ p, f p.unmarked = f p)
    (own : List Property) (e : Property) : f (e.marked own) = f e :=
  apply_of_erased (unmarked_marked own) markless e

@[simp] theorem name_marked (own : List Property) (e : Property) : (e.marked own).name = e.name :=
  apply_marked (f := name) (fun _ => rfl) own e

theorem marked_of_not_declares (h : declares own e.name = false) : e.marked own = e := by
  rw [marked, find?_name_eq_none_iff.2 h]

theorem sort_map_marked (own l : List Property) :
    sort (l.map (marked own)) = (sort l).map (marked own) := by
  have rank (e : Property) : (e.marked own).rank = e.rank :=
    apply_marked (f := Property.rank) (fun _ => rfl) own e
  unfold sort
  rw [List.map_mergeSort, List.map_mergeSort]
  · intro p _ q _
    rw [name_marked, name_marked]
  · intro p _ q _
    rw [rank, rank]

theorem retag_markedBy (as : List TagAssignment) (schema : String) (e p : Property) :
    (e.markedBy p).retag as schema = (e.retag as schema).markedBy p := by
  have label : TagAssignment.tagOn schema (e.markedBy p) = TagAssignment.tagOn schema e := rfl
  apply ext_unmarked
  · calc
      ((e.markedBy p).retag as schema).unmarked = e.unmarked := unmarked_retag as schema _
      _ = (e.retag as schema).unmarked := (unmarked_retag as schema e).symm
  · exact isInherited_retag as schema (e.markedBy p)
  · show _ = (e.retag as schema).tag.or p.tag
    rw [tag_retag, tag_retag, label, Option.or_assoc]
    rfl

theorem retag_marked (as : List TagAssignment) (schema : String) (own : List Property)
    (e : Property) : (e.marked own).retag as schema = (e.retag as schema).marked own := by
  unfold marked
  rw [name_retag]
  cases own.find? (·.name == e.name) with
  | none => rfl
  | some p => exact retag_markedBy as schema e p

end Property

namespace Schema

def unmarked (s : Schema) : Schema := { s with properties := s.properties.map Property.unmarked }

/-- A normalized schema with its properties as they were authored, and with the marks of those that
are its own. -/
def marked (authored own : List Property) (s : Schema) : Schema :=
  { s.mapMembers fun l => l.map (Property.marked own) with properties := authored }

def SameLinks (s u : Schema) : Prop := ∃ properties view, u = { s with properties, view }

/-- The properties that `s` authors and the parent does not have as the same enum. -/
def declaredIn (r : Registry) (s : Schema) : List Property :=
  s.properties.filter (!s.isRedeclared r ·)

variable {r : Registry} {s : Schema}

theorem unmarkedOffer_marked (authored own : List Property) (s : Schema) :
    (s.marked authored own).unmarkedOffer = s.unmarkedOffer := by
  have all : (s.view.members.all.map (Property.marked own)).map Property.unmarked =
      s.view.members.all.map Property.unmarked := by
    rw [List.map_map]
    exact List.map_congr_left fun e _ => Property.unmarked_marked own e
  show (s.discriminatorProperty, _) = (s.discriminatorProperty, _)
  rw [← all]
  rfl

theorem directMembers_eq (r : Registry) (s : Schema) : directMembers r s = firstOfEachName
    ((ownMembers r s ++ embeddedMembers r s).filter (!·.isReadOnly) ++
      (ownMembers r s ++ embeddedMembers r s).filter (·.isReadOnly)) := by
  rw [directMembers, candidates, readWriteCandidates,
    ← Property.firstOfEachName_firstOfEachName_append, Property.firstOfEachName_eraseDups,
    Property.firstOfEachName_firstOfEachName_append]

theorem declares_ownMembers_eq (r : Registry) (s : Schema) (x : String) :
    declares (ownMembers r s) x = declares (declaredIn r s) x := by
  show ((declaredIn r s).map (withSubtypeDefault r s)).any _ = _
  rw [List.any_map]
  simp only [Function.comp_def, name_withSubtypeDefault]
  rfl

theorem marked_of_received {e : Property} (he : e ∈ inheritedMembers r s ∨ e ∈ embeddedMembers r s) :
    e.marked (declaredIn r s) = e := by
  obtain ⟨q, _, new, rfl⟩ := mem_inheritedMembers_or_embeddedMembers.1 he
  exact Property.marked_of_not_declares (declares_ownMembers_eq r s _ ▸ new)

theorem map_marked_of_received {l : List Property}
    (h : ∀ e ∈ l, e ∈ inheritedMembers r s ∨ e ∈ embeddedMembers r s) :
    l.map (Property.marked (declaredIn r s)) = l := by
  have same : l.map (Property.marked (declaredIn r s)) = l.map id :=
    List.map_congr_left fun e he => marked_of_received (h e he)
  rw [same, List.map_id]

theorem declaredIn_unmarked (r : Registry) (s : Schema) :
    declaredIn r s.unmarked = (declaredIn r s).map Property.unmarked := by
  show (s.properties.map _).filter _ = _
  rw [List.filter_map]
  rfl

theorem declares_ownMembers_unmarked (r : Registry) (s : Schema) (x : String) :
    declares (ownMembers r s) x = declares (ownMembers r s.unmarked) x := by
  rw [declares_ownMembers_eq, declares_ownMembers_eq, declaredIn_unmarked]
  show _ = ((declaredIn r s).map Property.unmarked).any _
  rw [List.any_map]
  rfl

theorem withSubtypeDefault_eq_markedBy (r : Registry) (s : Schema) (p : Property) :
    withSubtypeDefault r s p = (withSubtypeDefault r s.unmarked p.unmarked).markedBy p := by
  have condition : (!p.unmarked.isReadOnly && !p.unmarked.hasDefault &&
      (r.parent? s.unmarked).any (·.discriminates p.unmarked)) =
        (!p.isReadOnly && !p.hasDefault && (r.parent? s).any (·.discriminates p)) := rfl
  unfold withSubtypeDefault
  rw [condition]
  split <;> rfl

theorem received_eq_map_marked (r : Registry) (s : Schema) :
    inheritedMembers r s =
        (inheritedMembers r s.unmarked).map (Property.marked (declaredIn r s)) ∧
      embeddedMembers r s =
        (embeddedMembers r s.unmarked).map (Property.marked (declaredIn r s)) := by
  obtain ⟨inherited, embedded⟩ :=
    received_congr (s := s) (u := s.unmarked) rfl rfl (declares_ownMembers_unmarked r s)
  rw [← inherited, ← embedded, map_marked_of_received fun _ => .inl,
    map_marked_of_received fun _ => .inr]
  exact ⟨rfl, rfl⟩

section Distinct

variable (r : Registry) (distinct : DistinctNames s.properties)
include distinct

theorem ownMembers_eq_map_marked :
    ownMembers r s = (ownMembers r s.unmarked).map (Property.marked (declaredIn r s)) := by
  show (declaredIn r s).map _ = ((declaredIn r s.unmarked).map _).map _
  rw [declaredIn_unmarked, List.map_map, List.map_map]
  apply List.map_congr_left
  intro p hp
  have found : (declaredIn r s).find? (·.name == p.name) = some p :=
    (find?_key_eq_some_iff (distinct.filter _)).2 ⟨hp, rfl⟩
  have name : (withSubtypeDefault r s.unmarked p.unmarked).name = p.name :=
    name_withSubtypeDefault r s.unmarked p.unmarked
  show _ = (withSubtypeDefault r s.unmarked p.unmarked).marked _
  rw [Property.marked, name, found]
  exact withSubtypeDefault_eq_markedBy r s p

theorem directMembers_eq_map_marked :
    directMembers r s = (directMembers r s.unmarked).map (Property.marked (declaredIn r s)) := by
  have members : ownMembers r s ++ embeddedMembers r s =
      (ownMembers r s.unmarked ++ embeddedMembers r s.unmarked).map
        (Property.marked (declaredIn r s)) := by
    rw [List.map_append, ← ownMembers_eq_map_marked r distinct, ← (received_eq_map_marked r s).2]
  have part {f : Property → Bool} (markless : ∀ p, f p.unmarked = f p) :=
    Property.filter_map_of_erased (Property.unmarked_marked (declaredIn r s)) markless
  rw [directMembers_eq, directMembers_eq, members, part (f := (!·.isReadOnly)) fun _ => rfl,
    part (f := (·.isReadOnly)) fun _ => rfl, ← List.map_append,
    Property.firstOfEachName_map (Property.name_marked _)]

theorem visibleMembers_eq_map_marked (c : Config) : visibleMembers c r s =
    (visibleMembers c r s.unmarked).map (Property.marked (declaredIn r s)) := by
  have candidates : visibleCandidates c r s =
      (visibleCandidates c r s.unmarked).map (Property.marked (declaredIn r s)) := by
    rw [visibleCandidates, visibleCandidates, directMembers_eq_map_marked r distinct,
      (received_eq_map_marked r s).1, List.map_append]
    split <;> rfl
  rw [visibleMembers, candidates, Property.firstOfEachName_map (Property.name_marked _)]
  rfl

theorem members_eq_map_marked (c : Config) : members c r s =
    (members c r s.unmarked).map (·.map (Property.marked (declaredIn r s))) := by
  have part {f : Property → Bool} (markless : ∀ p, f p.unmarked = f p) :=
    Property.filter_map_of_erased (Property.unmarked_marked (declaredIn r s)) markless
  have kept := part (f := fun p => !(droppedNames r s.unmarked).contains p.name) fun _ => rfl
  have dropped : droppedNames r s = droppedNames r s.unmarked := rfl
  simp only [members, Members.map, visibleMembers_eq_map_marked r distinct,
    directMembers_eq_map_marked r distinct, (received_eq_map_marked r s).1, dropped,
    Members.mk.injEq]
  refine ⟨?vars, ?all, ?required, ?optional, ?readOnly, ?readWrite, trivial⟩
  case vars => exact kept _
  case all => rw [← List.map_append, Property.firstOfEachName_map (Property.name_marked _), kept]
  case required => rw [part (f := (·.isRequired)) fun _ => rfl, kept]
  case optional => rw [part (f := (!·.isRequired)) fun _ => rfl, kept]
  case readOnly => rw [part (f := (·.isReadOnly)) fun _ => rfl, kept]
  case readWrite => rw [part (f := (!·.isReadOnly)) fun _ => rfl, kept]

theorem importsFor_unmarked (c : Config) : importsFor c r s (members c r s).all =
    importsFor c r s.unmarked (members c r s.unmarked).all := by
  have types : (members c r s).all.filterMap (·.complexType) =
      (members c r s.unmarked).all.filterMap (·.complexType) := by
    rw [members_eq_map_marked r distinct]
    show ((members c r s.unmarked).all.map _).filterMap _ = _
    rw [List.filterMap_map]
    apply List.filterMap_congr
    intro e _
    exact Property.apply_marked (f := Property.complexType) (fun _ => rfl) _ e
  unfold importsFor
  rw [types]
  rfl

theorem normalize_eq_marked (c : Config) :
    s.normalize c r = (s.unmarked.normalize c r).marked s.properties (declaredIn r s) := by
  have sorted : (members c r s).map Property.sort =
      ((members c r s.unmarked).map Property.sort).map
        (·.map (Property.marked (declaredIn r s))) := by
    rw [members_eq_map_marked r distinct]
    simp only [Members.map, Property.sort_map_marked]
  have same : (s.unmarked.normalize c r).marked s.properties (declaredIn r s) =
      { s.normalize c r with view := {
          base := base c r s
          members := ((members c r s.unmarked).map Property.sort).map
            (·.map (Property.marked (declaredIn r s)))
          imports := importsFor c r s.unmarked (members c r s.unmarked).all
          modelImports := [] } } := rfl
  rw [same, ← sorted, ← importsFor_unmarked r distinct]
  rfl

end Distinct

end Schema

namespace Registry

variable {c : Config} {r R T : Registry} {order : List String} {s : Schema}

def unmarked (r : Registry) : Registry := r.map Schema.unmarked fun _ => rfl

theorem find?_unmarked (r : Registry) (n : String) :
    r.unmarked.find? n = (r.find? n).map Schema.unmarked := Keyed.find?_map _ _ r n

theorem nameCollision?_go_unmarked (s : Schema) (before ps : List Property) :
    Schema.nameCollision?.go s.unmarked (before.map Property.unmarked) (ps.map Property.unmarked) =
      Schema.nameCollision?.go s before ps := by
  induction ps generalizing before with
  | nil => rfl
  | cons p ps ih =>
    have found : (before.map Property.unmarked).find? (·.name == p.unmarked.name) =
        (before.find? (·.name == p.name)).map Property.unmarked := by
      rw [List.find?_map]
      rfl
    rw [List.map_cons, Schema.nameCollision?.go, Schema.nameCollision?.go, found]
    cases before.find? (·.name == p.name) with
    | none => exact ih (p :: before)
    | some q => rfl

theorem insert_unmarked (r : Registry) (s : Schema) :
    r.unmarked.insert s.unmarked = (r.insert s).map unmarked := by
  have collision : s.unmarked.nameCollision? = s.nameCollision? :=
    nameCollision?_go_unmarked s [] s.properties
  have held : r.unmarked.contains s.unmarked.name = r.contains s.name := by
    show (r.unmarked.find? s.name).isSome = (r.find? s.name).isSome
    rw [find?_unmarked, Option.isSome_map]
  have put : r.unmarked.put s.unmarked = unmarked (r.put s) := by
    apply Keyed.ext_find?
    intro n
    rw [Keyed.find?_put, find?_unmarked, find?_unmarked, Keyed.find?_put]
    show (if s.name = n then _ else _) = _
    split <;> rfl
  unfold insert
  rw [collision, held, put]
  cases s.nameCollision? with
  | some failure => rfl
  | none => cases r.contains s.name <;> rfl

theorem ofSchemas_unmarked (schemas : List Schema) :
    ofSchemas (schemas.map Schema.unmarked) = (ofSchemas schemas).map unmarked := by
  have run (r : Registry) : (schemas.map Schema.unmarked).foldlM insert r.unmarked =
      (schemas.foldlM insert r).map unmarked := by
    induction schemas generalizing r with
    | nil => rfl
    | cons s schemas ih =>
      rw [List.map_cons, List.foldlM_cons, List.foldlM_cons, insert_unmarked]
      cases r.insert s with
      | error failure => rfl
      | ok t => exact ih t
  exact run ∅

theorem dependencyOrder_unmarked (r : Registry) : r.unmarked.dependencyOrder = r.dependencyOrder := by
  apply dependencyOrder_congr
  intro n
  rw [find?_unmarked, Option.map_map]
  rfl

theorem declares_unmarked {n : String} {p : Property} :
    r.unmarked.Declares n p ↔ r.Authors n p := by
  refine (declares_map _).trans ?_
  constructor
  · rintro ⟨s, hs, hp⟩
    obtain ⟨q, hq, rfl⟩ := List.mem_map.1 hp
    exact ⟨q, ⟨s, hs, hq⟩, rfl⟩
  · rintro ⟨q, ⟨s, hs, hq⟩, rfl⟩
    exact ⟨s, hs, List.mem_map_of_mem hq⟩

namespace Settled

variable (hR : Settled c r R) (hT : Settled c r.unmarked T)
include hR hT

theorem authors_iff (n : String) (p : Property) : R.Authors n p ↔ T.Authors n p := by
  unfold Authors
  simp only [hR.declares_iff, hT.declares_iff, declares_unmarked]
  constructor
  · rintro ⟨q, hq, rfl⟩
    exact ⟨q.unmarked, ⟨q, hq, rfl⟩, rfl⟩
  · rintro ⟨_, ⟨q, hq, rfl⟩, rfl⟩
    exact ⟨q, hq, rfl⟩

theorem unmarkedOffer_find?_eq (plan : r.Schedule order)
    (distinct : ∀ s ∈ r.toList, DistinctNames s.properties) (n : String) :
    (R.find? n).map Schema.unmarkedOffer = (T.find? n).map Schema.unmarkedOffer := by
  refine hR.map_find?_eq hT plan (fun n => ?_) (fun s hs u hu name deps => ?_) n
  · show (r.find? n).isSome = (r.unmarked.find? n).isSome
    rw [find?_unmarked, Option.isSome_map]
  · have same : u = s.unmarked := by
      have found := Keyed.find?_of_mem hu
      rw [name, find?_unmarked, Keyed.find?_of_mem hs] at found
      exact (Option.some.inj found).symm
    have sees : s.SeesSame R T := ⟨deps, fun k _ => hR.authors_iff hT k.name⟩
    rw [same, sees.normalize, Schema.normalize_eq_marked T (distinct s hs),
      Schema.unmarkedOffer_marked]

theorem seesSame_unmarked (plan : r.Schedule order)
    (distinct : ∀ s ∈ r.toList, DistinctNames s.properties) (s : Schema) : s.SeesSame R T :=
  ⟨fun n _ => hR.unmarkedOffer_find?_eq hT plan distinct n, fun k _ => hR.authors_iff hT k.name⟩

theorem related : Related Schema.SameLinks R T := by
  intro n
  rw [hR n, hT n, find?_unmarked]
  cases r.find? n with
  | none => exact .none
  | some s => exact .some ⟨_, _, rfl⟩

end Settled

theorem keepsTags_sameLinks : KeepsTags Schema.SameLinks where
  discriminator s u same := by
    obtain ⟨_, _, rfl⟩ := same
    rfl
  ofChild d b b' s u base child := by
    obtain ⟨_, _, rfl⟩ := base
    obtain ⟨_, _, rfl⟩ := child
    rfl

theorem Related.children (h : Related Schema.SameLinks R T) (n : String) :
    R.children n = T.children n := by
  have outline (s u : Schema) (same : s.SameLinks u) : s.outline = u.outline := by
    obtain ⟨_, _, rfl⟩ := same
    rfl
  have declared : (R.find? n).map Schema.children = (T.find? n).map Schema.children :=
    h.map_find? (fun s u same => by obtain ⟨_, _, rfl⟩ := same; rfl) n
  unfold Registry.children
  rw [declared, linked_of_outline (h.map_find? outline) n]

end Registry

end ApiModel
