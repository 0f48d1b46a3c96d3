import ApiModel.Proofs.Registry.History

/-! Registries that are worked on in place. A step reads and writes the one registry that there is,
so what it wrote before a failure would stay. It fails before its first write only, so that a
registry holds what went in, as authored but for `Null` alternatives, whatever was done with it. -/

namespace ApiModel

open Property (DistinctNames)

/-- `t` is as authored in `s`, or is nullable instead of having `Null` alternatives. -/
structure Schema.HeldAs (s t : Schema) : Prop where
  name : t.name = s.name
  properties : t.properties = s.properties
  parent : t.parent = s.parent
  discriminator : t.discriminator = s.discriminator
  children : t.children = s.children
  isMap : t.isMap = s.isMap
  tag : t.tag = s.tag
  components : t.composedFrom = s.composedFrom ∨
    t.composedFrom = s.composedFrom.filter Component.isReal
  nullable : t.isNullable = (s.isNullable || t.composedFrom != s.composedFrom)

namespace Schema

variable {c : Config} {s t u : Schema}

theorem HeldAs.refl (s : Schema) : s.HeldAs s :=
  ⟨rfl, rfl, rfl, rfl, rfl, rfl, rfl, .inl rfl, by rw [bne_self_eq_false, Bool.or_false]⟩

theorem HeldAs.of_cleared (h : s.HeldAs t) (cleared : u.cleared = t.cleared) : s.HeldAs u := by
  have composed : u.composedFrom = t.composedFrom := (congrArg composedFrom cleared :)
  exact {
    name := (congrArg Schema.name cleared).trans h.name
    properties := (congrArg Schema.properties cleared).trans h.properties
    parent := (congrArg Schema.parent cleared).trans h.parent
    discriminator := (congrArg Schema.discriminator cleared).trans h.discriminator
    children := (congrArg Schema.children cleared).trans h.children
    isMap := (congrArg Schema.isMap cleared).trans h.isMap
    tag := (congrArg Schema.tag cleared).trans h.tag
    components := composed ▸ h.components
    nullable := composed ▸ (congrArg Schema.isNullable cleared).trans h.nullable }

theorem filter_isReal_bne (l : List Component) :
    (l.filter Component.isReal != l) =
      !(l.filter fun k => k.isNull && k.isAlternative).isEmpty := by
  rw [Bool.eq_iff_iff, bne_iff_ne, ne_eq, List.filter_eq_self, Bool.not_eq_true',
    List.isEmpty_eq_false_iff, ne_eq, List.filter_eq_nil_iff]
  simp only [Component.isReal, Bool.not_eq_true', Bool.not_eq_true]

theorem HeldAs.intake (h : s.HeldAs t) (c : Config) : s.HeldAs (t.intake c) := by
  cases strips : c.stripsNull with
  | false => exact h.of_cleared (intake_of_keeps strips t ▸ rfl)
  | true =>
    have kept : (t.intake c).composedFrom = t.composedFrom.filter Component.isReal :=
      if_pos strips
    have nullable : (t.intake c).isNullable =
        (t.isNullable || t.composedFrom.filter Component.isReal != t.composedFrom) := by
      show (t.isNullable || !(nullAlternatives c t).isEmpty) = _
      rw [nullAlternatives, if_pos strips, filter_isReal_bne]
    rcases h.components with whole | real
    · refine { h with components := .inr ?_, nullable := ?_ }
      · rw [kept, whole]
      · rw [nullable, kept, h.nullable, whole, bne_self_eq_false, Bool.or_false]
    · have again : (t.intake c).composedFrom = t.composedFrom := by
        rw [kept, real, filter_filter_isReal fun _ => id]
      refine { h with components := .inr (again.trans real), nullable := ?_ }
      rw [nullable, ← kept, again, bne_self_eq_false, Bool.or_false, h.nullable]

end Schema

namespace Registry

variable {c : Config} {r t : Registry} {held : List Schema}

structure Holds (r : Registry) (held : List Schema) : Prop where
  distinctSchemas : (held.map (·.name)).Nodup
  distinctMembers : ∀ s ∈ held, DistinctNames s.properties
  each : ∀ s ∈ held, ∃ t, r.find? s.name = some t ∧ s.HeldAs t
  only : ∀ n, r.contains n = true → ∃ s ∈ held, s.name = n

theorem holds_empty : Holds ∅ [] :=
  ⟨.nil, List.forall_mem_nil _, List.forall_mem_nil _, fun _ h => (Bool.false_ne_true h).elim⟩

theorem Holds.of_cleared (h : r.Holds held) {f : Schema → Schema}
    (keeps : ∀ s t, Schema.HeldAs s t → Schema.HeldAs s (f t))
    (cleared : ∀ n, (t.find? n).map Schema.cleared = (r.find? n).map fun s => (f s).cleared) :
    t.Holds held := by
  refine ⟨h.distinctSchemas, h.distinctMembers, fun s hs => ?_, fun n known => h.only n ?_⟩
  · obtain ⟨u, hu, heldAs⟩ := h.each s hs
    have same := cleared s.name
    rw [hu, Option.map_some, Option.map_eq_some_iff] at same
    obtain ⟨v, hv, eq⟩ := same
    exact ⟨v, hv, (keeps s u heldAs).of_cleared eq⟩
  · have same := congrArg Option.isSome (cleared n)
    rw [Option.isSome_map, Option.isSome_map] at same
    exact same.symm.trans known

theorem Holds.insert (h : r.Holds held) {s : Schema} (hs : r.insert s = .ok t) :
    t.Holds (held ++ [s]) := by
  obtain ⟨distinct, new, rfl⟩ := insert_eq_ok_iff.1 hs
  have fresh : ∀ u ∈ held, u.name ≠ s.name := by
    intro u hu name
    obtain ⟨v, hv, _⟩ := h.each u hu
    rw [← name, Keyed.contains, hv] at new
    cases new
  refine ⟨nodup_map_concat.2 ⟨h.distinctSchemas, fresh⟩, ?_, ?_, fun n known => ?_⟩
  · exact List.forall_mem_append.2 ⟨h.distinctMembers, List.forall_mem_singleton.2 distinct⟩
  · refine List.forall_mem_append.2 ⟨fun u hu => ?_, List.forall_mem_singleton.2 ?_⟩
    · rw [Keyed.find?_put, if_neg (fresh u hu).symm]
      exact h.each u hu
    · exact ⟨s, by rw [Keyed.find?_put, if_pos rfl], .refl s⟩
  · rw [Keyed.contains, Keyed.find?_put] at known
    split at known
    next name => exact ⟨s, List.mem_append_right _ List.mem_cons_self, name⟩
    next =>
      obtain ⟨u, hu, name⟩ := h.only n known
      exact ⟨u, List.mem_append_left _ hu, name⟩

theorem holds_of_ofSchemas (h : ofSchemas held = .ok r) : r.Holds held := by
  obtain ⟨distinct, nodup, perm⟩ := ofSchemas_eq_ok_iff.1 h
  refine ⟨nodup, distinct, fun s hs => ?_, fun n known => ?_⟩
  · exact ⟨s, Keyed.find?_of_mem (perm.mem_iff.2 hs), .refl s⟩
  · rw [Keyed.contains_iff_mem_keys, (perm.map _).mem_iff] at known
    exact List.mem_map.1 known

theorem Holds.after (h : r.Holds held) (step : Step) :
    (step.after r).Holds (step.admitted r held) := by
  cases hs : step.apply r with
  | error failure =>
    obtain ⟨stays, admits⟩ := Step.after_of_error hs held
    rwa [stays, admits]
  | ok t =>
    rw [Step.after_of_ok hs]
    cases step with
    | insert s =>
      simp only [Step.admitted, hs]
      exact h.insert hs
    | load schemas =>
      simp only [Step.admitted, hs]
      exact holds_of_ofSchemas hs
    | normalize c =>
      exact h.of_cleared (fun _ _ heldAs => heldAs.intake c) (cleared_of_normalize hs)
    | assignTags c order =>
      cases hs
      exact h.of_cleared (fun _ _ => id) (cleared_assignTags c r order)

theorem Holds.run (h : r.Holds held) (steps : List Step) :
    (run r steps).Holds (admitted r held steps) := by
  induction steps generalizing r held with
  | nil => exact h
  | cons step steps ih => exact ih (h.after step)

/-! ### Steps in place -/

/-- What was written to the registry before a failure stays written. -/
abbrev InPlace := ExceptT Failure (StateM Registry)

def InPlace.on {α : Type} (work : InPlace α) (r : Registry) : Except Failure α × Registry :=
  work.run.run r

def Step.perform : Step → InPlace Unit
  | insert s =>
    match s.nameCollision? with
    | some failure => throw failure
    | none => do
      if (← get).contains s.name then throw (.duplicateSchema s.name)
      modify (·.put s)
  | load schemas => do set (← MonadExcept.ofExcept (ofSchemas schemas))
  | normalize c => do
    let order ← MonadExcept.ofExcept (← get).dependencyOrder
    order.forM fun name => modify fun r => r.normalizeAt c name
    modify fun r => r.assignTags c order
    order.forM fun name => modify fun r => r.update name (Schema.assignModelImports c.naming)
  | assignTags c order => modify fun r => r.assignTags c order

theorem InPlace.on_forM_modify {α : Type} (l : List String) (f : Registry → String → Registry)
    (work : Unit → InPlace α) (r : Registry) :
    InPlace.on (l.forM (fun name => modify fun r => f r name) >>= work) r =
      (work ()).on (l.foldl f r) := by
  induction l generalizing r with
  | nil => rfl
  | cons name l ih => exact ih (f r name)

theorem find?_foldl_assignModelImports (m : Naming) (order : List String) (t : Registry)
    (n : String) :
    (order.foldl (fun t name => t.update name (Schema.assignModelImports m)) t).find? n =
      if n ∈ order then (t.find? n).map (Schema.assignModelImports m) else t.find? n := by
  induction order generalizing t with
  | nil => rfl
  | cons name order ih =>
    have name_eq (s : Schema) : (s.assignModelImports m).name = s.name := rfl
    rw [List.foldl_cons, ih, Keyed.find?_update name_eq]
    by_cases eq : name = n
    · have again : (Schema.assignModelImports m) ∘ (Schema.assignModelImports m) =
          Schema.assignModelImports m := rfl
      have mem : n ∈ name :: order := List.mem_cons.2 (.inl eq.symm)
      rw [if_pos eq, if_pos mem, Option.map_map, again, ite_self]
    · simp only [eq, if_false, List.mem_cons, Ne.symm eq, false_or]

theorem foldl_assignModelImports {order : List String} (complete : ∀ n, t.contains n → n ∈ order)
    (m : Naming) : order.foldl (fun t name => t.update name (Schema.assignModelImports m)) t =
      t.assignModelImports m := by
  apply Keyed.ext_find?
  intro n
  rw [find?_foldl_assignModelImports, find?_assignModelImports]
  split
  next => rfl
  next missed =>
    have absent : t.find? n = none := by
      rw [Keyed.find?_eq_none_iff, ← Bool.not_eq_true]
      exact fun known => missed (complete n known)
    rw [absent, Option.map_none]

theorem Schedule.contains_assignTags {order : List String} (plan : r.Schedule order) (c : Config)
    (n : String) : ((r.normalizeEach c order).assignTags c order).contains n = r.contains n := by
  have same := cleared_assignTags c (r.normalizeEach c order) order n
  rw [plan.settled c n, Option.map_map] at same
  simpa only [Keyed.contains, Option.isSome_map] using congrArg Option.isSome same

/-- A step in place is the step, unless it fails and leaves what it found. -/
theorem on_perform (step : Step) (r : Registry) :
    step.perform.on r = match step.apply r with
      | .ok t => (.ok (), t)
      | .error f => (.error f, r) := by
  cases step with
  | insert s =>
    simp only [Step.perform, Step.apply, Registry.insert]
    cases s.nameCollision? with
    | some failure => rfl
    | none =>
      show InPlace.on (if r.contains s.name then _ else _) r = _
      by_cases known : r.contains s.name
      · rw [if_pos known, if_pos known]
        rfl
      · rw [if_neg known, if_neg known]
        rfl
  | load schemas =>
    simp only [Step.perform, Step.apply]
    cases ofSchemas schemas <;> rfl
  | normalize c =>
    simp only [Step.perform, Step.apply, Registry.normalize]
    show InPlace.on (MonadExcept.ofExcept r.dependencyOrder >>= _) r = _
    cases plan : r.dependencyOrder with
    | error f => rfl
    | ok order =>
      show InPlace.on (order.forM _ >>= _) r = _
      rw [InPlace.on_forM_modify]
      show InPlace.on (order.forM _) (assignTags _ c order) = _
      have schedule := schedule_of_dependencyOrder plan
      rw [← bind_pure (order.forM _), InPlace.on_forM_modify, foldl_assignModelImports]
      · rfl
      · intro n known
        rw [← normalizeEach, schedule.contains_assignTags] at known
        exact (schedule.mem_iff n).2 known
  | assignTags c order => rfl

def runInPlace (r : Registry) : List Step → Registry
  | [] => r
  | step :: steps => runInPlace (step.perform.on r).2 steps

theorem runInPlace_eq (r : Registry) (steps : List Step) : runInPlace r steps = run r steps := by
  induction steps generalizing r with
  | nil => rfl
  | cons step steps ih =>
    have left : (step.perform.on r).2 = step.after r := by
      rw [on_perform, Step.after]
      cases step.apply r <;> rfl
    rw [runInPlace, ih, left]
    rfl

/-- Whatever was done with a registry, it holds what went in, under its names and as authored; and
what fails then leaves it as it is. -/
theorem runInPlace_holds (steps : List Step) :
    runInPlace ∅ steps = run ∅ steps ∧
      (runInPlace ∅ steps).Holds (admitted ∅ [] steps) ∧
      (∀ n t, (runInPlace ∅ steps).find? n = some t → t.name = n ∧ DistinctNames t.properties) ∧
      ∀ (step : Step) (f : Failure), (step.perform.on (runInPlace ∅ steps)).1 = .error f →
        (step.perform.on (runInPlace ∅ steps)).2 = runInPlace ∅ steps := by
  have same := runInPlace_eq ∅ steps
  have holds : (runInPlace ∅ steps).Holds (admitted ∅ [] steps) := same ▸ holds_empty.run steps
  refine ⟨same, holds, fun n t ht => ?_, fun step f => ?_⟩
  · obtain ⟨s, hs, name⟩ := holds.only n (Keyed.contains_iff.2 ⟨t, ht⟩)
    obtain ⟨u, hu, heldAs⟩ := holds.each s hs
    rw [name, ht, Option.some_inj] at hu
    subst hu
    refine ⟨heldAs.name.trans name, ?_⟩
    rw [heldAs.properties]
    exact holds.distinctMembers s hs
  · rw [on_perform]
    cases step.apply (runInPlace ∅ steps) with
    | error g => exact fun _ => rfl
    | ok t => exact fun failed => nomatch failed

def knotHistory : List Step :=
  let owner := (Schema.named "Owner").composedOf .oneOf ["Null", "Person"]
  let twice : List Property := [.plain "id" "id" "string", .plain "id" "ID" "string"]
  [.insert owner, .normalize { profile := .taggedUnion },
    .insert ((Schema.named "Cat").withProperties twice),
    .assignTags { profile := .taggedUnion } ["Owner", "Cat"],
    .insert ((Schema.named "Knot").withParent "Loop"),
    .insert ((Schema.named "Loop").withParent "Knot")]

theorem runInPlace_holds_knotHistory :
    let r := runInPlace ∅ knotHistory
    let normalize : Step := .normalize { stripNullableVariants := false }
    let chain : Failure := .cyclicInheritance ["Knot", "Loop", "Knot"]
    (r.find? "Owner").map (·.isNullable) = some true ∧
      (∀ t, r.find? "Owner" = some t → t.name = "Owner" ∧ DistinctNames t.properties) ∧
      (normalize.perform.on r).1 = .error chain ∧ (normalize.perform.on r).2 = r := by
  intro r normalize chain
  have fails : (normalize.perform.on r).1 = .error chain := by decide +kernel
  obtain ⟨_, _, named, unchanged⟩ := runInPlace_holds knotHistory
  exact ⟨by decide +kernel, named "Owner", fails, unchanged normalize chain fails⟩

end Registry

end ApiModel
