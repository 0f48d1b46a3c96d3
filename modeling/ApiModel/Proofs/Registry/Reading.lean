import ApiModel.Proofs.Registry.Schedule
import ApiModel.Registry.SchemaView

/-! What the view of a schema is derived from: its own authored part less the `Null` alternatives,
what its dependencies offer, and which properties its alternatives declare. No other schema and no
view of its own from before is read, and of what is read no mark is: whether a property is inherited
and its tag are set anew in every copy. -/

namespace ApiModel

open Property (declares)

def Registry.Declares (r : Registry) (name : String) (p : Property) : Prop :=
  ∃ s, r.find? name = some s ∧ p ∈ s.properties

theorem Registry.declares_map {f : Schema → Schema} (name : ∀ s, (f s).name = s.name)
    {r : Registry} {n : String} {p : Property} :
    Registry.Declares (r.map f name) n p ↔ ∃ s, r.find? n = some s ∧ p ∈ (f s).properties := by
  unfold Registry.Declares
  rw [Keyed.find?_map]
  constructor
  · rintro ⟨_, found, hp⟩
    obtain ⟨s, hs, rfl⟩ := Option.map_eq_some_iff.1 found
    exact ⟨s, hs, hp⟩
  · rintro ⟨s, hs, hp⟩
    exact ⟨f s, Option.map_eq_some_iff.2 ⟨s, hs, rfl⟩, hp⟩

namespace Property

def untagged (p : Property) : Property := { p with tag := none }

@[simp] theorem name_untagged (p : Property) : p.untagged.name = p.name := rfl

def unmarked (p : Property) : Property := { p with isInherited := false, tag := none }

@[simp] theorem name_unmarked (p : Property) : p.unmarked.name = p.name := rfl

theorem map_inherited_unmarked (f : String → Bool) (l : List Property) :
    ((l.map unmarked).filter fun p => f p.name).map inherited =
      (l.filter fun p => f p.name).map inherited := by
  rw [List.filter_map, List.map_map]
  rfl

section Erasure

/-! What does not look at some fields does not see a change of these. -/

variable {e g : Property → Property} (erased : ∀ p, e (g p) = e p)
include erased

theorem apply_of_erased {β : Type} {f : Property → β} (blind : ∀ p, f (e p) = f p) (p : Property) :
    f (g p) = f p :=
  calc
    f (g p) = f (e (g p)) := (blind _).symm
    _ = f (e p) := by rw [erased]
    _ = f p := blind p

theorem filter_map_of_erased {f : Property → Bool} (blind : ∀ p, f (e p) = f p)
    (l : List Property) : (l.map g).filter f = (l.filter f).map g := by
  have same : f ∘ g = f := funext (apply_of_erased erased blind)
  rw [List.filter_map, same]

end Erasure

end Property

/-- But for marks, the schema called `name` declares `p`. -/
def Registry.Authors (r : Registry) (name : String) (p : Property) : Prop :=
  ∃ q, r.Declares name q ∧ q.unmarked = p

namespace Schema

variable {c : Config} {r t : Registry} {s : Schema}

/-- What a schema hands to those that depend on it. -/
def offer (s : Schema) : Option String × List Property :=
  (s.discriminatorProperty, s.view.members.all)

def unmarkedOffer (s : Schema) : Option String × List Property :=
  (s.discriminatorProperty, s.view.members.all.map Property.unmarked)

/-- The dependencies of `s` offer the same in both registries, but for marks. -/
def SeesAlike (s : Schema) (r t : Registry) : Prop :=
  ∀ d ∈ s.dependencies, (r.find? d).map unmarkedOffer = (t.find? d).map unmarkedOffer

structure SeesSame (s : Schema) (r t : Registry) : Prop where
  alike : s.SeesAlike r t
  alternatives : ∀ k ∈ s.alternatives, ∀ p, r.Authors k.name p ↔ t.Authors k.name p

theorem mem_dependencies_of_parent {d : String} (h : s.parent = some d) : d ∈ s.dependencies := by
  simp [dependencies, h]

theorem mem_dependencies_of_embedded {k : Component} (h : k ∈ s.embedded) :
    k.name ∈ s.dependencies :=
  List.mem_append_right _ (List.mem_map_of_mem h)

theorem parentMembers_eq (r : Registry) (s : Schema) :
    parentMembers r s = ((r.parent? s).map (·.view.members.all)).getD [] := by
  unfold parentMembers
  cases r.parent? s <;> rfl

theorem any_sameEnum_getD (o : Option Schema) (p : Property) :
    ((o.map (·.view.members.all)).getD []).any p.sameEnum =
      (o.map unmarkedOffer).any (·.2.any p.sameEnum) := by
  cases o with
  | none => rfl
  | some u =>
    show u.view.members.all.any _ = (u.view.members.all.map _).any _
    rw [List.any_map]
    rfl

theorem isRedeclared_eq (r : Registry) (s : Schema) (p : Property) :
    isRedeclared r s p = ((r.parent? s).map unmarkedOffer).any (·.2.any p.sameEnum) := by
  rw [isRedeclared, parentMembers_eq, any_sameEnum_getD]

theorem withSubtypeDefault_eq (r : Registry) (s : Schema) (p : Property) :
    withSubtypeDefault r s p =
      if !p.isReadOnly && !p.hasDefault &&
          ((r.parent? s).map unmarkedOffer).any (·.1.any p.isNamed) then p.withDefault s.name
      else p := by
  unfold withSubtypeDefault
  rw [Option.any_map]
  rfl

theorem inheritedMembers_eq (r : Registry) (s : Schema) :
    inheritedMembers r s = ((((r.parent? s).map unmarkedOffer).map Prod.snd).getD [] |>.filter
      fun p => !declares (ownMembers r s) p.name).map Property.inherited := by
  rw [inheritedMembers, parentMembers_eq]
  cases r.parent? s with
  | none => rfl
  | some u => exact (Property.map_inherited_unmarked (fun x => !declares (ownMembers r s) x) _).symm

theorem embeddedMembers_eq (r : Registry) (s : Schema) :
    embeddedMembers r s = (s.embedded.filterMap fun k => (r.find? k.name).map unmarkedOffer).flatMap
      fun o => (o.2.filter fun p => !declares (ownMembers r s) p.name).map Property.inherited := by
  have copies (u : Schema) : ((unmarkedOffer u).2.filter fun p =>
      !declares (ownMembers r s) p.name).map Property.inherited = (u.view.members.all.filter
        fun p => !declares (ownMembers r s) p.name).map Property.inherited :=
    Property.map_inherited_unmarked (fun x => !declares (ownMembers r s) x) _
  simp only [embeddedMembers, ← List.map_filterMap, List.flatMap_map, copies]

theorem received_congr {u : Schema} (parent : s.parent = u.parent)
    (embedded : s.embedded = u.embedded)
    (own : ∀ x, declares (ownMembers r s) x = declares (ownMembers r u) x) :
    inheritedMembers r s = inheritedMembers r u ∧ embeddedMembers r s = embeddedMembers r u := by
  have offered : parentMembers r s = parentMembers r u := by
    rw [parentMembers_eq, parentMembers_eq, Registry.parent?, Registry.parent?, parent]
  constructor
  · simp only [inheritedMembers, offered, own]
  · simp only [embeddedMembers, embedded, own]

theorem mem_droppedNames {x : String} : x ∈ droppedNames r s ↔
    ∃ k ∈ s.alternatives, ∃ p, r.Declares k.name p ∧ s.discriminates p = false ∧ p.name = x := by
  simp only [droppedNames, List.mem_flatMap, List.mem_filterMap, List.mem_map, List.mem_filter]
  constructor
  · rintro ⟨u, ⟨k, hk, hu⟩, p, ⟨hp, keep⟩, rfl⟩
    exact ⟨k, hk, p, ⟨u, hu, hp⟩, by simpa using keep, rfl⟩
  · rintro ⟨k, hk, p, ⟨u, hu, hp⟩, keep, rfl⟩
    exact ⟨u, ⟨k, hk, hu⟩, p, ⟨hp, by simpa using keep⟩, rfl⟩

theorem mem_droppedNames_iff_authors {x : String} : x ∈ droppedNames r s ↔
    ∃ k ∈ s.alternatives, ∃ p, r.Authors k.name p ∧ s.discriminates p = false ∧ p.name = x := by
  rw [mem_droppedNames]
  constructor
  · rintro ⟨k, hk, p, hp, keep, rfl⟩
    exact ⟨k, hk, p.unmarked, ⟨p, hp, rfl⟩, keep, rfl⟩
  · rintro ⟨k, hk, _, ⟨p, hp, rfl⟩, keep, rfl⟩
    exact ⟨k, hk, p, hp, keep, rfl⟩

namespace SeesAlike

variable (h : s.SeesAlike r t)
include h

theorem parent : (r.parent? s).map unmarkedOffer = (t.parent? s).map unmarkedOffer := by
  unfold Registry.parent?
  cases hp : s.parent with
  | none => rfl
  | some d => exact h d (mem_dependencies_of_parent hp)

theorem isRedeclared : isRedeclared r s = isRedeclared t s := by
  funext p
  rw [isRedeclared_eq, isRedeclared_eq, h.parent]

theorem ownMembers : ownMembers r s = ownMembers t s := by
  have default : withSubtypeDefault r s = withSubtypeDefault t s := by
    funext p
    rw [withSubtypeDefault_eq, withSubtypeDefault_eq, h.parent]
  simp only [Schema.ownMembers, h.isRedeclared, default]

theorem inheritedMembers : inheritedMembers r s = inheritedMembers t s := by
  rw [inheritedMembers_eq, inheritedMembers_eq, h.ownMembers, h.parent]

theorem embeddedMembers : embeddedMembers r s = embeddedMembers t s := by
  rw [embeddedMembers_eq, embeddedMembers_eq, h.ownMembers]
  congr 1
  apply List.filterMap_congr
  intro k hk
  exact h k.name (mem_dependencies_of_embedded hk)

theorem directMembers : directMembers r s = directMembers t s := by
  simp only [Schema.directMembers, candidates, readWriteCandidates, h.ownMembers, h.embeddedMembers]

end SeesAlike

namespace SeesSame

theorem of_offers (offers : ∀ d ∈ s.dependencies, (r.find? d).map offer = (t.find? d).map offer)
    (declared : ∀ k ∈ s.alternatives, ∀ p, r.Declares k.name p ↔ t.Declares k.name p) :
    s.SeesSame r t where
  alike d hd := by
    have same := congrArg (Option.map fun o => (o.1, o.2.map Property.unmarked)) (offers d hd)
    rw [Option.map_map, Option.map_map] at same
    exact same
  alternatives k hk p := exists_congr fun q => and_congr_left' (declared k hk q)

variable (h : s.SeesSame r t)
include h

theorem droppedNames (x : String) :
    (droppedNames r s).contains x = (droppedNames t s).contains x := by
  rw [Bool.eq_iff_iff, List.contains_iff_mem, List.contains_iff_mem, mem_droppedNames_iff_authors,
    mem_droppedNames_iff_authors]
  constructor
  · rintro ⟨k, hk, p, hp, rest⟩
    exact ⟨k, hk, p, (h.alternatives k hk p).1 hp, rest⟩
  · rintro ⟨k, hk, p, hp, rest⟩
    exact ⟨k, hk, p, (h.alternatives k hk p).2 hp, rest⟩

theorem members : members c r s = members c t s := by
  simp only [Schema.members, visibleMembers, visibleCandidates, h.alike.directMembers,
    h.alike.inheritedMembers, h.droppedNames]

theorem base : base c r s = base c t s := by
  have names (u : Registry) : (u.parent? s).map (·.name) =
      ((u.parent? s).map unmarkedOffer).bind fun _ => s.parent := by
    cases hp : u.parent? s with
    | none => rfl
    | some q =>
      obtain ⟨d, hd, hq⟩ := Option.bind_eq_some_iff.1 hp
      rw [hd, ← Keyed.key_of_find? hq]
      rfl
  rw [Schema.base, Schema.base, names r, names t, h.alike.parent]

theorem normalize : s.normalize c r = s.normalize c t := by
  simp only [Schema.normalize, importsFor, h.members, h.base]

end SeesSame

end Schema

end ApiModel
