import ApiModel.Proofs.Registry.Settled

/-! What a run over a registry warns of. A link that leads to no schema is told once, by the step
that goes through it, and whether a schema was normalized by then has no part in it. -/

namespace ApiModel

/-- Whether the event tells of a part of a document that was left out or made up. A definition that
another one of the same name hides is no such part. -/
def Event.isDegradation (e : Event) : Bool :=
  decide (e.level = .warn) &&
    e.message != "Conflicting definitions for property, keeping the first one."

theorem Event.filter_isDegradation_of_forall {α : Type} {f : α → Event}
    (h : ∀ a, (f a).isDegradation = true) (l : List α) :
    (l.map f).filter Event.isDegradation = l.map f :=
  List.filter_eq_self.2 fun e he => by
    obtain ⟨a, _, rfl⟩ := List.mem_map.1 he
    exact h a

theorem Event.filter_isDegradation_of_forall_not {α : Type} {f : α → Event}
    (h : ∀ a, (f a).isDegradation = false) (l : List α) :
    (l.map f).filter Event.isDegradation = [] :=
  List.filter_eq_nil_iff.2 fun e he => by
    obtain ⟨a, _, rfl⟩ := List.mem_map.1 he
    rw [h a]
    exact Bool.false_ne_true

namespace Schema

variable (r : Registry) (s : Schema)

def danglingEvents : List Event :=
  s.parentEvents r ++ s.unknownEvents r s.embedded ++ s.unknownEvents r s.alternatives

variable {r s} {c : Config} {t : Registry} {u : Schema}

theorem filter_parentEvents (r : Registry) (s : Schema) :
    (s.parentEvents r).filter Event.isDegradation = s.parentEvents r := by
  unfold parentEvents
  split
  · split
    · rfl
    · rfl
  · rfl

theorem filter_unknownEvents (r : Registry) (s : Schema) (components : List Component) :
    (s.unknownEvents r components).filter Event.isDegradation = s.unknownEvents r components :=
  Event.filter_isDegradation_of_forall (fun _ => rfl) _

theorem filter_conflictEvents (s : Schema) (l : List Property) :
    (s.conflictEvents l).filter Event.isDegradation = [] :=
  Event.filter_isDegradation_of_forall_not (fun _ => rfl) _

theorem filter_events (c : Config) (r : Registry) (s : Schema) :
    (s.events c r).filter Event.isDegradation = s.danglingEvents r := by
  have dropped : ((if (nullAlternatives c s).isEmpty then []
      else [.nullAlternativeDropped s.name]) : List Event).filter Event.isDegradation = [] := by
    split
    · rfl
    · rfl
  have redeclared := Event.filter_isDegradation_of_forall_not
    (f := fun p : Property => .enumRedeclared s.name p.name) (fun _ => rfl)
    (s.properties.filter (isRedeclared r s))
  have added := Event.filter_isDegradation_of_forall_not
    (f := fun p : Property => .parentMemberAdded s.name p.name) (fun _ => rfl)
    (inheritedMembers r s)
  have repeated : (Property.repetitionEvents (readWriteCandidates r s)).filter
      Event.isDegradation = [] := Event.filter_isDegradation_of_forall_not (fun _ => rfl) _
  unfold events
  simp only [List.filter_append, dropped, redeclared, added, repeated, filter_parentEvents,
    filter_unknownEvents, filter_conflictEvents, List.nil_append, List.append_nil]
  cases droppedNames r s with
  | nil => exact List.append_nil _
  | cons name names => exact List.append_nil _

theorem danglingEvents_congr (core : s.core = u.core) (known : r.contains = t.contains) :
    s.danglingEvents r = u.danglingEvents t := by
  have parent : s.parent = u.parent :=
    (congrArg Schema.parent core : s.core.parent = u.core.parent)
  have name : s.name = u.name := (congrArg Schema.name core : s.core.name = u.core.name)
  have embedded : s.embedded = u.embedded := by rw [← embedded_core, core, embedded_core]
  have alternatives : s.alternatives = u.alternatives := by
    rw [← alternatives_core, core, alternatives_core]
  unfold danglingEvents parentEvents unknownEvents
  rw [parent, name, embedded, alternatives, known]

end Schema

namespace Registry

variable {c : Config} {r t : Registry} {order : List String}

def danglingEvents (r : Registry) (name : String) : List Event :=
  ((r.find? name).map (·.danglingEvents r)).getD []

theorem SameCore.danglingEvents (h : r.SameCore t) (name : String) :
    r.danglingEvents name = t.danglingEvents name := by
  have known : r.contains = t.contains := funext h.contains
  unfold Registry.danglingEvents
  cases hs : r.find? name with
  | none =>
    have core := h name
    rw [hs, Option.map_none, eq_comm, Option.map_eq_none_iff] at core
    rw [core]
    rfl
  | some s =>
    obtain ⟨u, hu, core⟩ := h.find? hs
    rw [hu]
    exact Schema.danglingEvents_congr core known

theorem filter_eventsOfEach (c : Config) (r : Registry) (order : List String) :
    (r.eventsOfEach c order).filter Event.isDegradation = order.flatMap r.danglingEvents := by
  induction order generalizing r with
  | nil => rfl
  | cons name order ih =>
    have first : (((r.find? name).map (·.events c r)).getD []).filter Event.isDegradation =
        r.danglingEvents name := by
      unfold danglingEvents
      cases r.find? name with
      | none => rfl
      | some s => exact s.filter_events c r
    have later : (r.normalizeAt c name).danglingEvents = r.danglingEvents :=
      funext (sameCore_normalizeAt c r name).danglingEvents
    rw [eventsOfEach, List.filter_append, first, ih, later, List.flatMap_cons]

theorem filter_childWarnings (r : Registry) (name : String) :
    (r.childWarnings name).filter Event.isDegradation = r.childWarnings name := by
  unfold childWarnings
  split
  · rfl
  · rw [List.filter_eq_self]
    intro e he
    obtain ⟨child, _, told⟩ := List.mem_filterMap.1 he
    split at told
    · obtain rfl := Option.some.inj told
      rfl
    · split at told
      · obtain rfl := Option.some.inj told
        rfl
      · cases told

theorem filter_tagEvents (c : Config) (r : Registry) (order : List String) :
    (r.tagEvents c order).filter Event.isDegradation =
      if c.profile.isTaggedUnion then order.flatMap r.childWarnings else [] := by
  unfold tagEvents
  split
  · have assigned := Event.filter_isDegradation_of_forall_not
      (f := fun a : TagAssignment => .tagAssigned a.schema a.tag) (fun _ => rfl)
      (order.flatMap r.tagAssignments)
    rw [List.filter_append, assigned, List.append_nil, List.filter_flatMap]
    simp only [filter_childWarnings]
  · rfl

theorem filter_events (plan : r.dependencyOrder = .ok order) :
    (r.events c).filter Event.isDegradation = order.flatMap r.danglingEvents ++
      if c.profile.isTaggedUnion then order.flatMap (r.normalizeEach c order).childWarnings
      else [] := by
  rw [events, plan]
  show (_ ++ _ : List Event).filter _ = _
  rw [List.filter_append, filter_eventsOfEach, filter_tagEvents]

theorem Schedule.perm_names (h : r.Schedule order) : order.Perm (r.toList.map (·.name)) := by
  rw [List.perm_ext_iff_of_nodup h.nodup r.nodup_keys]
  intro n
  rw [h.mem_iff, Keyed.contains_iff_mem_keys]

theorem Schedule.flatMap_danglingEvents_perm (h : r.Schedule order) :
    (order.flatMap r.danglingEvents).Perm (r.toList.flatMap (·.danglingEvents r)) := by
  refine (h.perm_names.flatMap_right _).trans ?_
  rw [List.flatMap_map]
  refine List.Perm.of_eq (List.flatMap_congr fun s hs => ?_)
  rw [danglingEvents, Keyed.find?_of_mem hs]
  rfl

end Registry

end ApiModel
