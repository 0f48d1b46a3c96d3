import ApiModel.Proofs.Registry.Depth
import ApiModel.Proofs.Registry.Related
import ApiModel.Proofs.Registry.Settled

/-! Links that lead to no registered schema. Where members are taken over, dropped or tagged such a
link is a look-up without a result, so it can as well be left out. Only the imports repeat the names
of components without looking them up. -/

namespace ApiModel

def Component.isGrounded (known : String → Bool) (k : Component) : Bool := k.isNull || known k.name

namespace Schema

/-- Without the links to schemas that are not known; components called `Null` stay. -/
def grounded (known : String → Bool) (s : Schema) : Schema :=
  { s with
    parent := s.parent.filter known
    composedFrom := s.composedFrom.filter (·.isGrounded known) }

def withoutImports (s : Schema) : Schema :=
  { s with view := { s.view with imports := ∅, modelImports := [] } }

/-- `n` is the name of a component that is not known; of a tagged union it is not the parent. -/
def ImportsUnknown (c : Config) (known : String → Bool) (s : Schema) (n : String) : Prop :=
  known n = false ∧ (∃ k ∈ s.composedFrom, k.name = n ∧ n ≠ "Null") ∧
    (c.profile = .taggedUnion → s.parent ≠ some n)

variable {c : Config} {r R T : Registry} {s : Schema} {known : String → Bool} {n : String}

@[simp] theorem name_grounded (known : String → Bool) (s : Schema) :
    (s.grounded known).name = s.name := rfl

@[simp] theorem grounded_grounded (known : String → Bool) (s : Schema) :
    (s.grounded known).grounded known = s.grounded known := by
  have parent : (s.parent.filter known).filter known = s.parent.filter known := by
    rw [Option.filter_filter]
    simp only [Bool.and_self]
  have components : (s.composedFrom.filter (·.isGrounded known)).filter (·.isGrounded known) =
      s.composedFrom.filter (·.isGrounded known) := by
    rw [List.filter_filter]
    simp only [Bool.and_self]
  unfold grounded
  simp only [parent, components]

theorem embedded_grounded (known : String → Bool) (s : Schema) :
    (s.grounded known).embedded = s.embedded.filter (·.isGrounded known) :=
  List.filter_comm ..

theorem alternatives_grounded (known : String → Bool) (s : Schema) :
    (s.grounded known).alternatives = s.alternatives.filter (·.isGrounded known) :=
  List.filter_comm ..

theorem takesFrom_grounded : (s.grounded known).TakesFrom n → s.TakesFrom n := by
  rintro (parent | ⟨other, k, hk, kind, name⟩)
  · exact .inl (Option.filter_eq_some_iff.1 parent).1
  · exact .inr ⟨other, k, List.mem_of_mem_filter hk, kind, name⟩

theorem takesFrom_grounded_of_known (hn : known n = true) (h : s.TakesFrom n) :
    (s.grounded known).TakesFrom n := by
  rcases h with parent | ⟨other, k, hk, kind, rfl⟩
  · exact .inl (Option.filter_eq_some_iff.2 ⟨parent, hn⟩)
  · refine .inr ⟨other, k, List.mem_filter.2 ⟨hk, ?_⟩, kind, rfl⟩
    rw [Component.isGrounded, hn, Bool.or_true]

theorem filterMap_find?_grounded (r : Registry) (l : List Component) :
    (l.filter (·.isGrounded r.contains)).filterMap (fun k => r.find? k.name) =
      l.filterMap fun k => r.find? k.name := by
  rw [List.filterMap_filter]
  apply List.filterMap_congr
  intro k _
  split
  · rfl
  next dangling =>
    have unknown : r.contains k.name = false := by simp_all [Component.isGrounded]
    exact (Keyed.find?_eq_none_iff.2 unknown).symm

section
variable (c : Config) (r : Registry) (s : Schema)

theorem parent?_grounded : r.parent? (s.grounded r.contains) = r.parent? s := by
  unfold Registry.parent? grounded
  cases s.parent with
  | none => rfl
  | some parent =>
    show ((some parent).filter r.contains).bind r.find? = r.find? parent
    rw [Option.filter_some]
    split
    · rfl
    next unknown =>
      have missing : r.find? parent = none :=
        Keyed.find?_eq_none_iff.2 (Bool.not_eq_true _ ▸ unknown)
      exact missing.symm

theorem base_grounded : base c r (s.grounded r.contains) = base c r s := by
  unfold base
  rw [parent?_grounded]

theorem members_grounded : members c r (s.grounded r.contains) = members c r s := by
  have parentMembers : parentMembers r (s.grounded r.contains) = parentMembers r s := by
    rw [parentMembers_eq, parentMembers_eq, parent?_grounded]
  have own : ownMembers r (s.grounded r.contains) = ownMembers r s := by
    unfold ownMembers isRedeclared withSubtypeDefault
    rw [parentMembers, parent?_grounded]
    rfl
  have inherited : inheritedMembers r (s.grounded r.contains) = inheritedMembers r s := by
    unfold inheritedMembers
    rw [own, parentMembers]
  have embedded : embeddedMembers r (s.grounded r.contains) = embeddedMembers r s := by
    unfold embeddedMembers
    rw [own, embedded_grounded, filterMap_find?_grounded]
  have dropped : droppedNames r (s.grounded r.contains) = droppedNames r s := by
    unfold droppedNames
    rw [alternatives_grounded, filterMap_find?_grounded]
    rfl
  unfold members visibleMembers visibleCandidates directMembers candidates readWriteCandidates
  rw [own, inherited, embedded, dropped]

theorem keptComponents_grounded (known : String → Bool) :
    keptComponents c (s.grounded known) = (keptComponents c s).filter (·.isGrounded known) := by
  rw [keptComponents_eq, keptComponents_eq]
  split
  · exact List.filter_comm ..
  · rfl

theorem becomesNullable_grounded (known : String → Bool) :
    becomesNullable c (s.grounded known) = becomesNullable c s := by
  have kept : (s.composedFrom.filter (·.isGrounded known)).filter
      (fun k => k.isNull && k.isAlternative) =
        s.composedFrom.filter fun k => k.isNull && k.isAlternative := by
    rw [List.filter_filter]
    apply List.filter_congr
    intro k _
    unfold Component.isGrounded
    cases k.isNull <;> simp
  unfold becomesNullable nullAlternatives
  show (s.isNullable ||
    !(if c.stripsNull then (s.composedFrom.filter _).filter _ else []).isEmpty) = _
  rw [kept]

end

/-- What is left of a schema once links to unknown schemas and imports are left out. -/
def anchored (known : String → Bool) (s : Schema) : Schema := (s.grounded known).withoutImports

/-- The links can be left out before normalization or after it. -/
theorem anchored_normalize (c : Config) (r : Registry) (s : Schema) :
    (s.normalize c r).anchored r.contains =
      ((s.grounded r.contains).normalize c r).withoutImports := by
  simp only [normalize, anchored, withoutImports, members_grounded, base_grounded,
    keptComponents_grounded, becomesNullable_grounded]
  rfl

theorem mem_importsFor {all : List Property} : n ∈ (importsFor c r s all).toList ↔ n ≠ s.name ∧
    (((∃ k ∈ s.composedFrom, k.name = n ∧ n ≠ "Null") ∧
        (c.profile = .taggedUnion → s.parent ≠ some n)) ∨
      base c r s = some n ∨ ∃ p ∈ all, p.complexType = some n) := by
  have composed : n ∈ (Keyed.ofList ((s.composedFrom.filter (!·.isNull)).map (·.name)) :
      NameSet).toList ↔ ∃ k ∈ s.composedFrom, k.name = n ∧ n ≠ "Null" := by
    rw [Keyed.mem_toList_ofList, List.mem_map]
    constructor
    · rintro ⟨k, hk, rfl⟩
      obtain ⟨mem, real⟩ := List.mem_filter.1 hk
      exact ⟨k, mem, rfl, by simpa [Component.isNull] using real⟩
    · rintro ⟨k, mem, rfl, real⟩
      exact ⟨k, List.mem_filter.2 ⟨mem, by simpa [Component.isNull] using real⟩, rfl⟩
  unfold importsFor
  rw [Keyed.mem_toList_erase, Keyed.mem_toList_putAll, List.mem_filterMap]
  cases profile : c.profile with
  | classical =>
    have tagged : Profile.classical.isTaggedUnion = false := rfl
    rw [tagged, if_neg Bool.false_ne_true, Keyed.mem_toList_putAll, composed, Option.mem_toList]
    simp [or_assoc]
  | taggedUnion =>
    have tagged : Profile.taggedUnion.isTaggedUnion = true := rfl
    have extendsNone : base c r s = none := by rw [base, profile, if_pos tagged]
    rw [tagged, if_pos rfl, Keyed.toList_filter, List.mem_filter, composed, extendsNone]
    simp

theorem mem_imports_normalize_grounded (known : r.contains s.name = true) :
    n ∈ (s.normalize c r).view.imports.toList ↔
      n ∈ ((s.grounded r.contains).normalize c r).view.imports.toList ∨
        s.ImportsUnknown c r.contains n := by
  show n ∈ (importsFor c r s _).toList ↔ n ∈ (importsFor c r (s.grounded r.contains) _).toList ∨ _
  have components : (∃ k ∈ (s.grounded r.contains).composedFrom, k.name = n ∧ n ≠ "Null") ↔
      (∃ k ∈ s.composedFrom, k.name = n ∧ n ≠ "Null") ∧ r.contains n = true := by
    constructor
    · rintro ⟨k, hk, rfl, real⟩
      obtain ⟨mem, grounded⟩ := List.mem_filter.1 hk
      have held : r.contains k.name = true := by
        simpa [Component.isGrounded, Component.isNull, real] using grounded
      exact ⟨⟨k, mem, rfl, real⟩, held⟩
    · rintro ⟨⟨k, mem, rfl, real⟩, held⟩
      exact ⟨k, List.mem_filter.2 ⟨mem, by simp [Component.isGrounded, held]⟩, rfl, real⟩
  have parent (held : r.contains n = true) :
      (s.grounded r.contains).parent = some n ↔ s.parent = some n := by
    show s.parent.filter r.contains = some n ↔ _
    rw [Option.filter_eq_some_iff, and_iff_left held]
  rw [mem_importsFor, mem_importsFor, components, base_grounded, members_grounded]
  unfold ImportsUnknown
  cases held : r.contains n with
  | true =>
    simp only [ne_eq, parent held, name_grounded, reduceCtorEq, false_and, or_false, and_true]
  | false =>
    have other : n ≠ s.name := by
      rintro rfl
      rw [known] at held
      cases held
    simp only [other, name_grounded, reduceCtorEq, and_false, false_and, false_or, true_and,
      ne_eq, not_false_eq_true, or_comm]

theorem find?_component_grounded (h : known n = true) (s : Schema) :
    (s.grounded known).composedFrom.find? (·.name == n) = s.composedFrom.find? (·.name == n) := by
  show (s.composedFrom.filter _).find? _ = _
  rw [List.find?_filter]
  congr 1
  funext k
  by_cases name : k.name = n
  · simp [Component.isGrounded, name, h]
  · simp [name]

def SameAnchored (known : String → Bool) (s u : Schema) : Prop :=
  known s.name = true ∧ s.anchored known = u.anchored known

namespace SameAnchored

variable {s u b b' : Schema}

theorem name (h : SameAnchored known s u) : s.name = u.name := by
  have name := congrArg Schema.name h.2
  exact name

theorem tag (h : SameAnchored known s u) : s.tag = u.tag := by
  have tag := congrArg Schema.tag h.2
  exact tag

theorem discriminator (h : SameAnchored known s u) : s.discriminator = u.discriminator := by
  have discriminator := congrArg Schema.discriminator h.2
  exact discriminator

theorem children (h : SameAnchored known s u) : s.children = u.children := by
  have children := congrArg Schema.children h.2
  exact children

theorem keepsTags (known : String → Bool) : Registry.KeepsTags (SameAnchored known) where
  discriminator _ _ same := same.discriminator
  ofChild d b b' s u base child := by
    have anchored := congrArg Schema.composedFrom base.2
    have components : b.composedFrom.find? (·.name == s.name) =
        b'.composedFrom.find? (·.name == s.name) := by
      rw [← find?_component_grounded child.1, ← find?_component_grounded child.1 b']
      exact congrArg _ anchored
    unfold TagAssignment.ofChild Discriminator.tagOf
    rw [components, child.tag, child.name]

end SameAnchored

end Schema

namespace Registry

variable {c : Config} {r R T : Registry} {order : List String} {n m : String}

def grounded (r : Registry) : Registry :=
  r.map (Schema.grounded r.contains) (Schema.name_grounded r.contains)

theorem find?_grounded (r : Registry) (n : String) :
    r.grounded.find? n = (r.find? n).map (Schema.grounded r.contains) := Keyed.find?_map _ _ r n

theorem contains_grounded (r : Registry) (n : String) : r.grounded.contains n = r.contains n := by
  unfold Keyed.contains
  rw [find?_grounded, Option.isSome_map]

theorem waitsFor_grounded : r.grounded.WaitsFor n m ↔ r.WaitsFor n m := by
  unfold WaitsFor
  rw [contains_grounded, find?_grounded]
  constructor
  · rintro ⟨known, u, hu, takes⟩
    obtain ⟨s, hs, rfl⟩ := Option.map_eq_some_iff.1 hu
    exact ⟨known, s, hs, Schema.takesFrom_grounded takes⟩
  · rintro ⟨known, s, hs, takes⟩
    exact ⟨known, _, congrArg _ hs, Schema.takesFrom_grounded_of_known known takes⟩

theorem dependencyOrder_grounded (h : r.dependencyOrder = .ok order) :
    r.grounded.dependencyOrder = .ok order := by
  have waits : r.WaitsFor = r.grounded.WaitsFor := by
    funext n m
    exact propext waitsFor_grounded.symm
  exact dependencyOrder_of_waitsFor (fun n => (contains_grounded r n).symm) waits h

theorem declares_grounded {p : Property} : r.grounded.Declares n p ↔ r.Declares n p :=
  declares_map _

theorem Settled.contains_eq (h : Settled c r R) : R.contains = r.contains :=
  funext h.sameCore.contains

theorem Settled.seesSame_grounded (hR : Settled c r R) (hT : Settled c r.grounded T) {s : Schema}
    (deps : ∀ d ∈ s.dependencies, (R.find? d).map (Schema.anchored r.contains) =
      (T.find? d).map (Schema.anchored r.contains)) :
    (s.grounded r.contains).SeesSame R T := by
  refine .of_offers (fun d hd => ?_) fun k _ p => ?_
  · have takes := Schema.takesFrom_grounded (Schema.mem_dependencies.1 hd)
    have same := congrArg (Option.map Schema.offer) (deps d (Schema.mem_dependencies.2 takes))
    rw [Option.map_map, Option.map_map] at same
    exact same
  · rw [hR.declares_iff, hT.declares_iff, declares_grounded]

theorem Settled.contains_grounded (hT : Settled c r.grounded T) : T.contains = r.contains := by
  rw [hT.contains_eq]
  exact funext (Registry.contains_grounded r)

theorem Settled.anchored_normalize (hR : Settled c r R) (hT : Settled c r.grounded T) {s : Schema}
    (sees : (s.grounded r.contains).SeesSame R T) : (s.normalize c R).anchored r.contains =
      ((s.grounded r.contains).normalize c T).anchored r.contains := by
  have left := Schema.anchored_normalize c R s
  have right := Schema.anchored_normalize c T (s.grounded r.contains)
  rw [hR.contains_eq] at left
  rw [hT.contains_grounded, Schema.grounded_grounded] at right
  rw [left, right, sees.normalize]

theorem Settled.map_anchored_eq (hR : Settled c r R) (hT : Settled c r.grounded T)
    (plan : r.Schedule order) (n : String) :
    (R.find? n).map (Schema.anchored r.contains) =
      (T.find? n).map (Schema.anchored r.contains) := by
  refine hR.map_find?_eq hT plan (fun n => (Registry.contains_grounded r n).symm) ?_ n
  intro s hs u hu name deps
  have grounded : u = s.grounded r.contains := by
    have found := Keyed.find?_of_mem hu
    rw [name, find?_grounded, Keyed.find?_of_mem hs, Option.map_some, Option.some_inj] at found
    exact found.symm
  rw [grounded]
  exact hR.anchored_normalize hT (hR.seesSame_grounded hT deps)

theorem Settled.related_anchored (hR : Settled c r R) (hT : Settled c r.grounded T)
    (plan : r.Schedule order) : Related (Schema.SameAnchored r.contains) R T := by
  intro n
  have same := hR.map_anchored_eq hT plan n
  cases hs : R.find? n with
  | none =>
    rw [hs, Option.map_none, eq_comm, Option.map_eq_none_iff] at same
    rw [same]
    exact .none
  | some s =>
    rw [hs, Option.map_some, eq_comm, Option.map_eq_some_iff] at same
    obtain ⟨u, hu, same⟩ := same
    have held : R.contains s.name = true :=
      Keyed.contains_iff.2 ⟨s, (Keyed.key_of_find? hs).symm ▸ hs⟩
    rw [hu]
    exact .some ⟨hR.contains_eq ▸ held, same.symm⟩

theorem Related.children_of_anchored {known : String → Bool}
    (h : Related (Schema.SameAnchored known) R T) (hn : known n = true) :
    R.children n = T.children n := by
  have declared : (R.find? n).map (·.children) = (T.find? n).map (·.children) :=
    h.map_find? (fun _ _ same => same.children) n
  have anchored : R.toList.map (Schema.anchored known) = T.toList.map (Schema.anchored known) :=
    Keyed.toList_map_eq (fun _ => rfl) (h.map_find? fun _ _ same => same.2)
  have linked (l : List Schema) : (l.filter (·.parent == some n)).map (·.name) =
      ((l.map (Schema.anchored known)).filter (·.parent == some n)).map (·.name) := by
    have parent (s : Schema) : ((s.anchored known).parent == some n) = (s.parent == some n) := by
      show (s.parent.filter known == some n) = _
      rw [Bool.eq_iff_iff, beq_iff_eq, beq_iff_eq, Option.filter_eq_some_iff, and_iff_left hn]
    rw [List.filter_map, List.map_map]
    simp only [Function.comp_def, parent]
    rfl
  unfold children
  rw [declared, linked, anchored, ← linked]

end Registry

end ApiModel
