import Mathlib.Data.List.Dedup
import Mathlib.Data.List.Perm.Basic
import ApiModel.Proofs.Document.Dangling
import ApiModel.Proofs.Registry.Labels
import ApiModel.Proofs.Registry.Warnings

/-! The warnings of a run, read off the document. Each part of it that has to be left out or made up
is told once: parents and components that are no schema, in a tagged union children that are none or
that have no tag, and operations without an id. -/

namespace ApiModel

/-- There is a tag for the child `s` of `base`: its own, one that is mapped to it, or the one of the
component that the base keeps for it. -/
def Schema.hasTagFor (c : Config) (base : Schema) (disc : Discriminator) (s : Schema) : Bool :=
  s.tag.isSome || disc.mapping.toList.any (·.2 == s.name) ||
    ((base.keptComponents c).find? (·.name == s.name)).any (·.mappingTag.isSome)

namespace Document

section Degradations

variable (c : Config) (d : Document)

def unknownParents : List Event :=
  d.schemas.filterMap fun s => (s.parent.filter (!d.knows ·)).map (.parentUnknown s.name)

def unknownComponents : List Event :=
  d.schemas.flatMap fun s =>
    (s.composedFrom.filter fun k =>
      !d.knows k.name && k.name != s.name && !(k.isNull && k.isAlternative)).map
        fun k => .componentUnknown s.name k.name

def childNames (s : Schema) : List String :=
  (s.children ++ (d.schemas.filter (·.parent == some s.name)).map (·.name)).dedup

def childWarning (base : Schema) (disc : Discriminator) (child : String) : Option Event :=
  match d.schemas.find? (·.name == child) with
  | none => some (.childUnknown base.name child)
  | some s => if base.hasTagFor c disc s then none else some (.childWithoutTag base.name child)

def childWarnings (base : Schema) : List Event :=
  match base.discriminator with
  | none => []
  | some disc => (d.childNames base).filterMap (d.childWarning c base disc)

def derivedIds : List Event :=
  (d.operations.filter (·.operationId.isEmpty)).map fun op =>
    .operationIdDerived op.method.text op.path (Operation.derivedId op.method op.path)

/-- All that has to be left out of the document or made up for it. -/
def degradations : List Event :=
  d.unknownParents ++ d.unknownComponents ++
    (if c.profile.isTaggedUnion then d.schemas.flatMap (d.childWarnings c) else []) ++ d.derivedIds

end Degradations

end Document

/-! ### Operations -/

namespace Operation

variable {c : Config} {ops out : List Operation} {ids : List String}

theorem filter_events (c : Config) (op : Operation) :
    (op.events c).filter Event.isDegradation = if op.operationId.isEmpty then
      [.operationIdDerived op.method.text op.path (derivedId op.method op.path)] else [] := by
  have path : (PathTemplate.events c.pathDialect op.identified op.path).filter
      Event.isDegradation = [] := by
    unfold PathTemplate.events
    split
    · rfl
    · rfl
  have responses : (if (op.expansion c).isOk then Response.events op.responses else []).filter
      Event.isDegradation = [] := by
    unfold Response.events
    split
    · split
      · rfl
      · rfl
    · rfl
  rw [events, List.filter_append, List.filter_append, path, responses, finalId]
  split
  · rfl
  · rfl

theorem filter_eventsOfAll_go (h : normalizeAll.go c ids ops = .ok out) :
    (eventsOfAll.go c ids ops).filter Event.isDegradation =
      (ops.filter (·.operationId.isEmpty)).map fun op =>
        .operationIdDerived op.method.text op.path (derivedId op.method op.path) := by
  induction ops generalizing ids out with
  | nil => rfl
  | cons op ops ih =>
    cases hop : op.normalize c with
    | error failure =>
      rw [normalizeAll.go, hop] at h
      cases h
    | ok o =>
      rw [normalizeAll_go_cons hop] at h
      split at h
      · cases h
      next fresh =>
        cases rest : normalizeAll.go c (o.operationId :: ids) ops with
        | error failure =>
          rw [rest] at h
          cases h
        | ok out' =>
          rw [eventsOfAll.go, List.filter_append, filter_events, hop]
          show _ ++ (if _ then _ else _ : List Event).filter _ = _
          rw [if_neg fresh, ih rest, List.filter_cons]
          split
          · rfl
          · rfl

theorem filter_eventsOfAll {d : Document} (h : normalizeAll c d.operations = .ok out) :
    (eventsOfAll c d.operations).filter Event.isDegradation = d.derivedIds :=
  filter_eventsOfAll_go h

end Operation

/-! ### Links -/

namespace Document

variable {c : Config} {d : Document} {m : Model} {r R : Registry} {s u : Schema} {n : String}
  {order : List String} {disc : Discriminator}

theorem unknownEvents_perm (h : Registry.ofSchemas d.schemas = .ok r) (s : Schema) :
    (s.unknownEvents r s.embedded ++ s.unknownEvents r s.alternatives).Perm
      ((s.composedFrom.filter fun k =>
        !d.knows k.name && k.name != s.name && !(k.isNull && k.isAlternative)).map
          fun k => .componentUnknown s.name k.name) := by
  have embedded : s.embedded.filter (fun k => !r.contains k.name) =
      (s.composedFrom.filter fun k =>
        !d.knows k.name && k.name != s.name && !(k.isNull && k.isAlternative)).filter
          (!·.isAlternative) := by
    rw [contains_eq_knows h, Schema.embedded, List.filter_filter, List.filter_filter]
    apply List.filter_congr
    intro k _
    cases k.isAlternative <;> simp
  have alternatives : s.alternatives.filter (fun k => !r.contains k.name) =
      (s.composedFrom.filter fun k =>
        !d.knows k.name && k.name != s.name && !(k.isNull && k.isAlternative)).filter
          (!!·.isAlternative) := by
    rw [contains_eq_knows h, Schema.alternatives, List.filter_filter, List.filter_filter]
    apply List.filter_congr
    intro k _
    cases k.isAlternative <;> simp [Bool.and_comm, Bool.and_left_comm, Bool.and_assoc]
  unfold Schema.unknownEvents
  rw [embedded, alternatives, ← List.map_append]
  exact (List.filter_append_perm _ _).map _

theorem parentEvents_eq (h : Registry.ofSchemas d.schemas = .ok r) (s : Schema) :
    s.parentEvents r = ((s.parent.filter (!d.knows ·)).map (.parentUnknown s.name)).toList := by
  unfold Schema.parentEvents
  rw [contains_eq_knows h]
  cases s.parent with
  | none => rfl
  | some parent => cases known : d.knows parent <;> simp [Option.filter, known]

theorem flatMap_danglingEvents_perm (h : Registry.ofSchemas d.schemas = .ok r)
    (plan : r.Schedule order) :
    (order.flatMap r.danglingEvents).Perm (d.unknownParents ++ d.unknownComponents) := by
  have perm := (Registry.ofSchemas_eq_ok_iff.1 h).2.2
  refine plan.flatMap_danglingEvents_perm.trans ((perm.flatMap_right _).trans ?_)
  rw [unknownParents, unknownComponents, List.filterMap_eq_flatMap_toList]
  refine .trans ?_ (List.flatMap_append_perm _ _ _).symm
  refine List.Perm.flatMap_left _ fun s _ => ?_
  rw [Schema.danglingEvents, List.append_assoc, parentEvents_eq h]
  exact (unknownEvents_perm h s).append_left _

/-! ### Children -/

theorem isSome_tagOf_normalize (c : Config) (R : Registry) (disc : Discriminator) (s u : Schema) :
    (disc.tagOf (s.normalize c R) (u.normalize c R)).isSome = s.hasTagFor c disc u := by
  have mapped : (disc.tagFor u.name).isSome = disc.mapping.toList.any (·.2 == u.name) := by
    rw [Discriminator.tagFor, Option.isSome_map, Bool.eq_iff_iff, List.getLast?_isSome,
      List.any_eq_true]
    simp
  have kept : (((s.keptComponents c).find? (·.name == u.name)).bind (·.mappingTag)).isSome =
      ((s.keptComponents c).find? (·.name == u.name)).any (·.mappingTag.isSome) := by
    cases (s.keptComponents c).find? (·.name == u.name) <;> rfl
  show (u.tag <|> disc.tagFor u.name <|>
    ((s.keptComponents c).find? (·.name == u.name)).bind (·.mappingTag)).isSome = _
  rw [Schema.hasTagFor, ← mapped, ← kept]
  cases u.tag with
  | some tag => rfl
  | none => cases disc.tagFor u.name <;> rfl

theorem toList_of_settled (settled : Registry.Settled c r R) :
    R.toList = r.toList.map (·.normalize c R) := by
  have whole : R = Keyed.map (·.normalize c R) (Schema.name_normalize c R) r := by
    apply Keyed.ext_find?
    intro n
    rw [Keyed.find?_map, settled n]
  exact congrArg Keyed.toList whole

theorem childNames_perm (h : Registry.ofSchemas d.schemas = .ok r)
    (settled : Registry.Settled c r R) (hs : s ∈ d.schemas) :
    (R.children s.name).toList.Perm (d.childNames s) := by
  have perm := (Registry.ofSchemas_eq_ok_iff.1 h).2.2
  have nodup : (R.children s.name).toList.Nodup := by simpa using (R.children s.name).nodup_keys
  rw [childNames, List.perm_ext_iff_of_nodup nodup (List.nodup_dedup _)]
  intro n
  have linked : (R.toList.filter (·.parent == some s.name)).map (·.name) =
      (r.toList.filter (·.parent == some s.name)).map (·.name) := by
    rw [toList_of_settled settled, List.filter_map, List.map_map]
    rfl
  rw [Registry.children, Keyed.mem_toList_ofList, settled.find? (perm.mem_iff.2 hs), linked,
    List.mem_dedup, List.mem_append, List.mem_append,
    ((perm.filter _).map (·.name)).mem_iff]
  rfl

theorem childWarnings_perm (h : Registry.ofSchemas d.schemas = .ok r)
    (settled : Registry.Settled c r R) (hs : s ∈ d.schemas) :
    (R.childWarnings s.name).Perm (d.childWarnings c s) := by
  have perm := (Registry.ofSchemas_eq_ok_iff.1 h).2.2
  have held : R.find? s.name = some (s.normalize c R) := settled.find? (perm.mem_iff.2 hs)
  unfold Registry.childWarnings Registry.base? childWarnings
  rw [held]
  cases base : s.discriminator with
  | none =>
    have none : (s.normalize c R).discriminator = none := base
    rw [Option.bind_some, none]
    exact .refl _
  | some disc =>
    have some : (s.normalize c R).discriminator = some disc := base
    rw [Option.bind_some, some]
    refine ((childNames_perm h settled hs).filterMap _).trans (List.Perm.of_eq ?_)
    apply List.filterMap_congr
    intro child _
    have found : r.find? child = d.schemas.find? (·.name == child) :=
      find?_key_perm perm r.nodup_keys child
    rw [settled child, found, childWarning]
    cases d.schemas.find? (·.name == child) with
    | none => rfl
    | some u =>
      show (if (disc.tagOf _ _).isNone then _ else _) = if _ then _ else _
      rw [← isSome_tagOf_normalize c R disc s u]
      cases disc.tagOf (s.normalize c R) (u.normalize c R) <;> rfl

theorem flatMap_childWarnings_perm (h : Registry.ofSchemas d.schemas = .ok r)
    (settled : Registry.Settled c r R) (plan : r.Schedule order) :
    (order.flatMap R.childWarnings).Perm (d.schemas.flatMap (d.childWarnings c)) := by
  have names : order.Perm (d.schemas.map (·.name)) :=
    plan.perm_names.trans ((Registry.ofSchemas_eq_ok_iff.1 h).2.2.map _)
  refine (names.flatMap_right _).trans ?_
  rw [List.flatMap_map]
  exact List.Perm.flatMap_left _ fun s hs => childWarnings_perm h settled hs

/-! ### Runs -/

theorem filter_events_perm (h : d.normalize c = .ok m) :
    ((d.events c).filter Event.isDegradation).Perm (d.degradations c) := by
  obtain ⟨r, F, ops, hr, hF, ho, rfl⟩ := normalize_eq_ok_iff.1 h
  obtain ⟨order, ordered, rfl⟩ := Registry.normalize_eq_ok_iff.1 hF
  have plan := Registry.schedule_of_dependencyOrder ordered
  have finished : (d.finishEvents c).filter Event.isDegradation = [] := by
    rw [finishEvents, h]
    rfl
  have ran : d.stepEvents c = r.events c ++ Operation.eventsOfAll c d.operations := by
    simp only [stepEvents, hr, hF]
  have started : (d.events c).filter Event.isDegradation =
      (d.stepEvents c ++ d.finishEvents c).filter Event.isDegradation := rfl
  rw [started, List.filter_append, finished, List.append_nil, ran, List.filter_append,
    Registry.filter_events ordered, Operation.filter_eventsOfAll ho, degradations]
  refine ((flatMap_danglingEvents_perm hr plan).append ?_).append_right _
  split
  · exact flatMap_childWarnings_perm hr (plan.settled c) plan
  · exact .refl _

theorem not_childWarning_of_classical (profile : c.profile = .classical) {e : Event}
    (he : e ∈ d.degradations c) (s n : String) :
    e ≠ .childUnknown s n ∧ e ≠ .childWithoutTag s n := by
  have untagged : c.profile.isTaggedUnion = false := by
    rw [profile]
    rfl
  rw [degradations, if_neg (Bool.eq_false_iff.1 untagged), List.append_nil] at he
  rcases List.mem_append.1 he with links | ids
  · rcases List.mem_append.1 links with parent | component
    · obtain ⟨u, _, told⟩ := List.mem_filterMap.1 parent
      obtain ⟨p, _, rfl⟩ := Option.map_eq_some_iff.1 told
      exact ⟨nofun, nofun⟩
    · obtain ⟨u, _, told⟩ := List.mem_flatMap.1 component
      obtain ⟨k, _, rfl⟩ := List.mem_map.1 told
      exact ⟨nofun, nofun⟩
  · obtain ⟨op, _, rfl⟩ := List.mem_map.1 ids
    exact ⟨nofun, nofun⟩

/-- Each degradation of a document that normalizes is warned of once, and none of the children
unless unions are tagged. -/
theorem events_degradations (h : d.normalize c = .ok m) :
    ((d.events c).filter Event.isDegradation).Perm (d.degradations c) ∧
      (c.profile = .classical → ∀ e ∈ d.events c, ∀ s n,
        e ≠ .childUnknown s n ∧ e ≠ .childWithoutTag s n) := by
  have perm := filter_events_perm h
  refine ⟨perm, fun profile e he s n => ?_⟩
  by_cases degrades : e.isDegradation = true
  · exact not_childWarning_of_classical profile
      (perm.mem_iff.1 (List.mem_filter.2 ⟨he, degrades⟩)) s n
  · constructor
    · rintro rfl
      exact degrades rfl
    · rintro rfl
      exact degrades rfl

def rescue : Document where
  schemas := [
    { ((Schema.named "Animal").withDiscriminator "kind" [("dog", "Dog")]).composedOf .oneOf
        ["Null", "Ghost", "Animal"] with
      children := ["Bird", "Dog", "Fish", "Fish"] },
    (Schema.named "Dog").withParent "Animal",
    ((Schema.named "Bird").withParent "Animal").composedOf .allOf ["Null", "Wings", "Wings"],
    (Schema.named "Cage").withParent "Box"]
  operations := [.plain "" .get "/cages", .plain "cages" .post "/cages"]

theorem events_degradations_rescue : ∃ m, rescue.normalize { profile := .taggedUnion } = .ok m ∧
    ((rescue.events { profile := .taggedUnion }).filter Event.isDegradation).Perm [
      .parentUnknown "Cage" "Box",
      .componentUnknown "Animal" "Ghost",
      .componentUnknown "Bird" "Null",
      .componentUnknown "Bird" "Wings",
      .componentUnknown "Bird" "Wings",
      .childUnknown "Animal" "Fish",
      .childWithoutTag "Animal" "Bird",
      .operationIdDerived "GET" "/cages" "getCages"] := by
  obtain ⟨m, hm, _⟩ := exists_normalize_of_any (d := rescue) (c := { profile := .taggedUnion })
    (P := fun _ => true) (by decide +kernel)
  have perm := (events_degradations hm).1
  refine ⟨m, hm, perm.trans (List.Perm.of_eq ?_)⟩
  decide +kernel

end Document

end ApiModel
