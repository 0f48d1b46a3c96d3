import ApiModel.Proofs.Registry.Depth
import ApiModel.Proofs.Registry.Settled
import ApiModel.Proofs.Registry.Tagging

/-! What a whole run over a registry depends on: the authored schemas as the run takes them in, and
neither a view from before nor a `Null` alternative that the run drops, nor which of the orders that
take dependencies first it follows. A registry that went through a run is thereby the same input as
it was before, unless only the earlier run dropped alternatives. -/

namespace ApiModel

def Schema.withoutNullability (s : Schema) : Schema :=
  { s with composedFrom := [], isNullable := false }

namespace Registry

variable {c d : Config} {r t R T : Registry} {order : List String}

def SameIntake (c : Config) (r t : Registry) : Prop :=
  ∀ name, (r.find? name).map (Schema.intake c) = (t.find? name).map (Schema.intake c)

theorem SameIntake.sameCore (h : SameIntake c r t) : r.SameCore t := by
  intro name
  have := congrArg (Option.map Schema.core) (h name)
  simpa only [Option.map_map, Function.comp_def, Schema.core_intake] using this

theorem SameIntake.find?_eq (h : SameIntake c r t) {s u : Schema} (hs : s ∈ r.toList)
    (hu : u ∈ t.toList) (name : u.name = s.name) : s.intake c = u.intake c := by
  have := h s.name
  rwa [Keyed.find?_of_mem hs, ← name, Keyed.find?_of_mem hu, Option.map_some, Option.map_some,
    Option.some_inj] at this

theorem normalize_eq_of_intake {s u : Schema} (intake : s.intake c = u.intake c)
    (view : (s.normalize c R).view = (u.normalize c R).view) :
    s.normalize c R = u.normalize c R :=
  calc
    s.normalize c R = { s.intake c with view := (s.normalize c R).view } := rfl
    _ = { u.intake c with view := (u.normalize c R).view } := by rw [intake, view]
    _ = u.normalize c R := rfl

theorem Settled.eq_of_sameIntake (hr : Settled c r R) (ht : Settled c t T) (h : SameIntake c r t)
    (plan : r.Schedule order) : R = T := by
  have cores := hr.sameCore.trans (h.sameCore.trans ht.sameCore.symm)
  -- Equal schemas offer the same, so the whole schema is what the induction shares.
  apply Keyed.ext_find?
  intro n
  have same := hr.map_find?_eq ht (f := id) plan h.sameCore.contains ?_ n
  · simpa only [Option.map_id_fun, id_eq] using same
  intro s hs u hu name deps
  have intake := h.find?_eq hs hu name
  have core : s.core = u.core := by rw [← Schema.core_intake c, intake, Schema.core_intake]
  have sees := cores.seesSame (f := id) (g := Schema.offer) (fun _ => rfl) deps
  rw [id_eq, id_eq, sees.normalize]
  exact normalize_eq_of_intake intake (Schema.view_normalize_of_core core c _)

theorem normalizeEach_congr (h : SameIntake c r t) (plan : r.Schedule order) :
    r.normalizeEach c order = t.normalizeEach c order :=
  (plan.settled c).eq_of_sameIntake ((h.sameCore.schedule plan).settled c) h plan

theorem Schedule.normalizeEach_eq {order' : List String} (h : r.Schedule order)
    (h' : r.Schedule order') (c : Config) :
    r.normalizeEach c order = r.normalizeEach c order' :=
  (h.settled c).eq_of_sameIntake (h'.settled c) (fun _ => rfl) h

/-- The schemas can be normalized in any order that takes what they wait for first. -/
theorem normalizeEach_of_dependenciesFirst {order' : List String} (h : r.DependenciesFirst order)
    (h' : r.DependenciesFirst order') (c : Config) :
    r.normalizeEach c order = r.normalizeEach c order' ∧
      ∃ chosen, r.dependencyOrder = .ok chosen ∧
        r.normalizeEach c chosen = r.normalizeEach c order := by
  refine ⟨h.schedule.normalizeEach_eq h'.schedule c, ?_⟩
  obtain ⟨chosen, hc⟩ := exists_dependencyOrder_iff.2 h.schedule.acyclic
  exact ⟨chosen, hc, (schedule_of_dependencyOrder hc).normalizeEach_eq h.schedule c⟩

theorem normalizeEach_of_dependenciesFirst_diamond :
    diamond.DependenciesFirst ["Base", "Right", "Left", "Tip", "Other"] ∧
      diamond.DependenciesFirst ["Other", "Base", "Left", "Right", "Tip"] ∧
      diamond.normalizeEach {} ["Base", "Right", "Left", "Tip", "Other"] =
        diamond.normalizeEach {} ["Other", "Base", "Left", "Right", "Tip"] := by
  have rightFirst : diamond.DependenciesFirst ["Base", "Right", "Left", "Tip", "Other"] := by
    decide +kernel
  have otherFirst : diamond.DependenciesFirst ["Other", "Base", "Left", "Right", "Tip"] := by
    decide +kernel
  exact ⟨rightFirst, otherFirst, (normalizeEach_of_dependenciesFirst rightFirst otherFirst {}).1⟩

theorem normalize_congr (h : SameIntake c r t) : r.normalize c = t.normalize c := by
  unfold normalize
  rw [← h.sameCore.dependencyOrder]
  cases plan : r.dependencyOrder with
  | error failure => rfl
  | ok order => simp only [Except.map, normalizeEach_congr h (schedule_of_dependencyOrder plan)]

theorem normalize_eq_ok_iff : r.normalize c = .ok R ↔ ∃ order, r.dependencyOrder = .ok order ∧
    ((r.normalizeEach c order).assignTags c order).assignModelImports c.naming = R := by
  unfold normalize
  cases r.dependencyOrder <;> simp [Except.map]

theorem exists_normalize (h : r.normalize c = .ok R) (d : Config) : ∃ T, r.normalize d = .ok T := by
  obtain ⟨order, plan, _⟩ := normalize_eq_ok_iff.1 h
  exact ⟨_, normalize_eq_ok_iff.2 ⟨order, plan, rfl⟩⟩

theorem cleared_of_normalize (h : r.normalize c = .ok R) (n : String) :
    (R.find? n).map Schema.cleared = (r.find? n).map (Schema.intake c) := by
  obtain ⟨order, plan, rfl⟩ := normalize_eq_ok_iff.1 h
  rw [cleared_assignModelImports, cleared_assignTags,
    (schedule_of_dependencyOrder plan).settled c n, Option.map_map]
  rfl

theorem sameCore_of_normalize (h : r.normalize c = .ok R) : R.SameCore r := by
  intro n
  have := congrArg (Option.map Schema.core) (cleared_of_normalize h n)
  rw [Option.map_map, Option.map_map] at this
  simpa only [Function.comp_def, Schema.core_cleared, Schema.core_intake] using this

theorem sameIntake_of_normalize (h : r.normalize c = .ok R)
    (hd : d.stripsNull = true ∨ c.stripsNull = false) : SameIntake d R r := by
  intro n
  have := congrArg (Option.map (Schema.intake d)) (cleared_of_normalize h n)
  simpa only [Option.map_map, Function.comp_def, Schema.intake_cleared,
    Schema.intake_intake hd] using this

theorem withoutNullability_normalize {s u : Schema} (core : s.core = u.core)
    (view : (s.normalize c R).view = (u.normalize c R).view) :
    (s.normalize c R).withoutNullability = (u.normalize c R).withoutNullability :=
  calc
    (s.normalize c R).withoutNullability =
        { s.core with composedFrom := [], view := (s.normalize c R).view } := rfl
    _ = { u.core with composedFrom := [], view := (u.normalize c R).view } := by rw [core, view]
    _ = (u.normalize c R).withoutNullability := rfl

theorem SameCore.withoutNullability_normalizeEach (h : r.SameCore t) (plan : r.Schedule order)
    (c : Config) (n : String) :
    ((r.normalizeEach c order).find? n).map Schema.withoutNullability =
      ((t.normalizeEach c order).find? n).map Schema.withoutNullability := by
  have hr := plan.settled c
  have ht := (h.schedule plan).settled c
  have cores := hr.sameCore.trans (h.trans ht.sameCore.symm)
  refine hr.map_find?_eq ht plan h.contains ?_ n
  intro s hs u hu name deps
  obtain ⟨u', hu', core⟩ := h.find? (Keyed.find?_of_mem hs)
  rw [← name, Keyed.find?_of_mem hu, Option.some_inj] at hu'
  subst hu'
  have sees := cores.seesSame (f := Schema.withoutNullability) (g := Schema.offer)
    (fun _ => rfl) deps
  rw [sees.normalize]
  exact withoutNullability_normalize core (Schema.view_normalize_of_core core c _)

theorem SameCore.normalize_withoutNullability (h : r.SameCore t)
    (hc : c.profile.isTaggedUnion = false) (hr : r.normalize c = .ok R) :
    ∃ T, t.normalize c = .ok T ∧
      R.toList.map Schema.withoutNullability = T.toList.map Schema.withoutNullability := by
  obtain ⟨order, plan, rfl⟩ := normalize_eq_ok_iff.1 hr
  refine ⟨_, normalize_eq_ok_iff.2 ⟨order, h.dependencyOrder ▸ plan, rfl⟩, ?_⟩
  refine Keyed.toList_map_eq (fun _ => rfl) fun n => ?_
  have same := congrArg (Option.map (Schema.assignModelImports c.naming))
    (h.withoutNullability_normalizeEach (schedule_of_dependencyOrder plan) c n)
  rw [Option.map_map, Option.map_map] at same
  rw [assignTags_of_classical hc, assignTags_of_classical hc, find?_assignModelImports,
    find?_assignModelImports, Option.map_map, Option.map_map]
  exact same

end Registry

end ApiModel
