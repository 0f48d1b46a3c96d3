import ApiModel.Proofs.Registry.NullAlternatives
import ApiModel.Registry.Normalization

/-! Settled registries. When every schema is normalized once, in an order that respects the
dependencies, what each of them read on its way is what it would read in the end: the registry
arrived at is the registry normalized against itself. Two settled registries are compared schema by
schema, along the dependencies. -/

namespace ApiModel.Registry

variable {c d : Config} {r t R T : Registry} {order : List String}

def SameCore (r t : Registry) : Prop :=
  ∀ name, (r.find? name).map Schema.core = (t.find? name).map Schema.core

namespace SameCore

theorem symm (h : r.SameCore t) : t.SameCore r := fun name => (h name).symm

theorem trans {u : Registry} (rt : r.SameCore t) (tu : t.SameCore u) : r.SameCore u :=
  fun name => (rt name).trans (tu name)

theorem find? (h : r.SameCore t) {name : String} {s : Schema} (hs : r.find? name = some s) :
    ∃ u, t.find? name = some u ∧ s.core = u.core := by
  have := h name
  rw [hs, Option.map_some, eq_comm, Option.map_eq_some_iff] at this
  obtain ⟨u, hu, core⟩ := this
  exact ⟨u, hu, core.symm⟩

theorem contains (h : r.SameCore t) (name : String) : r.contains name = t.contains name := by
  have := congrArg Option.isSome (h name)
  rwa [Option.isSome_map, Option.isSome_map] at this

theorem dependsOn (h : r.SameCore t) {name d : String} (dep : r.DependsOn name d) :
    t.DependsOn name d := by
  obtain ⟨s, hs, hd⟩ := dep
  obtain ⟨u, hu, core⟩ := h.find? hs
  exact ⟨u, hu, by rwa [← u.dependencies_core, ← core, s.dependencies_core]⟩

theorem declares (h : r.SameCore t) {name : String} {p : Property} (decl : r.Declares name p) :
    t.Declares name p := by
  obtain ⟨s, hs, hp⟩ := decl
  obtain ⟨u, hu, core⟩ := h.find? hs
  have same : s.core.properties = u.core.properties := congrArg Schema.properties core
  exact ⟨u, hu, show p ∈ u.core.properties from same ▸ hp⟩

theorem schedule (h : r.SameCore t) (plan : r.Schedule order) : t.Schedule order where
  nodup := plan.nodup
  mem_iff name := by rw [← h.contains name, plan.mem_iff]
  irrefl name hname dep := plan.irrefl name hname (h.symm.dependsOn dep)
  pairwise := plan.pairwise.imp fun independent dep => independent (h.symm.dependsOn dep)

theorem dependencyOrder (h : r.SameCore t) : r.dependencyOrder = t.dependencyOrder := by
  apply dependencyOrder_congr
  intro name
  have := congrArg (Option.map Schema.outline) (h name)
  simpa only [Option.map_map, Function.comp_def, Schema.outline_core] using this

end SameCore

theorem find?_normalizeAt (c : Config) (r : Registry) (name n : String) :
    (r.normalizeAt c name).find? n =
      if name = n then (r.find? n).map (·.normalize c r) else r.find? n :=
  Keyed.find?_update (Schema.name_normalize c r) r name n

theorem normalizeEach_cons (c : Config) (r : Registry) (name : String) (order : List String) :
    r.normalizeEach c (name :: order) = (r.normalizeAt c name).normalizeEach c order := rfl

theorem sameCore_normalizeAt (c : Config) (r : Registry) (name : String) :
    (r.normalizeAt c name).SameCore r := by
  intro n
  rw [find?_normalizeAt]
  split
  · simp only [Option.map_map, Function.comp_def, Schema.core_normalize]
  · rfl

theorem sameCore_normalizeEach (c : Config) (r : Registry) (order : List String) :
    (r.normalizeEach c order).SameCore r := by
  induction order generalizing r with
  | nil => exact fun _ => rfl
  | cons name order ih => exact (ih (r.normalizeAt c name)).trans (sameCore_normalizeAt c r name)

theorem find?_normalizeEach_of_not_mem {n : String} (h : n ∉ order) (r : Registry) :
    (r.normalizeEach c order).find? n = r.find? n := by
  induction order generalizing r with
  | nil => rfl
  | cons name order ih =>
    have ne : name ≠ n := fun eq => h (eq ▸ List.mem_cons_self)
    rw [normalizeEach_cons, ih (fun later => h (List.mem_cons_of_mem _ later)), find?_normalizeAt,
      if_neg ne]

theorem find?_normalizeEach_of_mem (nodup : order.Nodup)
    (irrefl : ∀ name ∈ order, ¬ r.DependsOn name name)
    (pairwise : order.Pairwise fun earlier later => ¬ r.DependsOn earlier later)
    {n : String} (h : n ∈ order) :
    (r.normalizeEach c order).find? n =
      (r.find? n).map (·.normalize c (r.normalizeEach c order)) := by
  induction order generalizing r with
  | nil => exact (List.not_mem_nil h).elim
  | cons name order ih =>
    obtain ⟨fresh, nodup⟩ := List.nodup_cons.1 nodup
    obtain ⟨first, later⟩ := List.pairwise_cons.1 pairwise
    rw [normalizeEach_cons]
    have step := sameCore_normalizeAt c r name
    rcases List.mem_cons.1 h with rfl | h
    · rw [find?_normalizeEach_of_not_mem fresh, find?_normalizeAt, if_pos rfl]
      -- What the first schema depends on is not normalized later, and so offers the same.
      apply Option.map_congr
      intro s hs
      refine Schema.SeesSame.normalize (.of_offers (fun d hd => ?_) fun k _ p => ?_)
      · have dep : r.DependsOn n d := ⟨s, hs, hd⟩
        rw [find?_normalizeEach_of_not_mem (fun later => first d later dep), find?_normalizeAt,
          if_neg fun eq : n = d => irrefl n List.mem_cons_self (eq ▸ dep)]
      · have same := (sameCore_normalizeEach c _ order).trans step
        exact ⟨same.symm.declares, same.declares⟩
    · have ne : name ≠ n := fun eq => fresh (eq ▸ h)
      rw [ih nodup (fun m hm dep => irrefl m (List.mem_cons_of_mem _ hm) (step.dependsOn dep))
        (later.imp fun independent dep => independent (step.dependsOn dep)) h, find?_normalizeAt,
        if_neg ne]

/-- Every schema of `r` stands in `R` as it is when normalized against `R` itself. -/
def Settled (c : Config) (r R : Registry) : Prop :=
  ∀ name, R.find? name = (r.find? name).map (·.normalize c R)

theorem Schedule.settled (h : r.Schedule order) (c : Config) :
    Settled c r (r.normalizeEach c order) := by
  intro name
  by_cases mem : name ∈ order
  · exact find?_normalizeEach_of_mem h.nodup h.irrefl h.pairwise mem
  · rw [find?_normalizeEach_of_not_mem mem]
    have : r.find? name = none := by
      rw [h.mem_iff, Keyed.contains, Bool.not_eq_true, Option.isSome_eq_false_iff] at mem
      exact Option.isNone_iff_eq_none.1 mem
    rw [this, Option.map_none]

theorem Settled.find? (h : Settled c r R) {s : Schema} (hs : s ∈ r.toList) :
    R.find? s.name = some (s.normalize c R) := by
  rw [h, Keyed.find?_of_mem hs, Option.map_some]

theorem Settled.sameCore (h : Settled c r R) : R.SameCore r := by
  intro name
  simp only [h name, Option.map_map, Function.comp_def, Schema.core_normalize]

theorem Settled.declares_iff (h : Settled c r R) {n : String} {p : Property} :
    R.Declares n p ↔ r.Declares n p := ⟨h.sameCore.declares, h.sameCore.symm.declares⟩

/-- Two settled registries agree on what each schema shares with the one of its name, if it does
so whenever its dependencies do. For some names to agree it is enough that this holds of them and
that they have no dependencies but such. -/
theorem Settled.map_find?_eq_on {β : Type} {f : Schema → β} {P : String → Prop}
    (hr : Settled c r R) (ht : Settled d t T) (plan : r.Schedule order)
    (closed : ∀ s ∈ r.toList, P s.name → ∀ d ∈ s.dependencies, P d)
    (names : ∀ name, P name → r.contains name = t.contains name)
    (step : ∀ s ∈ r.toList, P s.name → ∀ u ∈ t.toList, u.name = s.name →
      (∀ d ∈ s.dependencies, (R.find? d).map f = (T.find? d).map f) →
      f (s.normalize c R) = f (u.normalize d T)) :
    ∀ name, P name → (R.find? name).map f = (T.find? name).map f := by
  -- A name that nothing answers to is found in neither; the others follow the dependencies.
  have unknown {name : String} (hP : P name) (h : r.contains name ≠ true) :
      (R.find? name).map f = (T.find? name).map f := by
    have hr' : r.find? name = none := by simpa [Keyed.contains] using h
    have ht' : t.find? name = none := by
      rw [names name hP] at h
      simpa [Keyed.contains] using h
    rw [hr, ht, hr', ht']
    rfl
  have known : ∀ s ∈ r.toList, P s.name → (R.find? s.name).map f = (T.find? s.name).map f := by
    refine plan.induction (P := fun n => P n → (R.find? n).map f = (T.find? n).map f) ?_
    intro s hs deps hP
    have held : r.contains s.name = true := Keyed.contains_iff.2 ⟨s, Keyed.find?_of_mem hs⟩
    obtain ⟨u, hu⟩ := Keyed.contains_iff.1 (names s.name hP ▸ held)
    obtain ⟨mem, name⟩ := Keyed.find?_eq_some_iff.1 hu
    rw [hr.find? hs, ← name, ht.find? mem, Option.map_some, Option.map_some]
    refine congrArg some (step s hs hP u mem name fun d hd => ?_)
    have hd' : P d := closed s hs hP d hd
    by_cases h : r.contains d = true
    · exact deps d hd h hd'
    · exact unknown hd' h
  intro name hP
  by_cases h : r.contains name = true
  · obtain ⟨s, hs⟩ := Keyed.contains_iff.1 h
    obtain ⟨mem, rfl⟩ := Keyed.find?_eq_some_iff.1 hs
    exact known s mem hP
  · exact unknown hP h

theorem Settled.map_find?_eq {β : Type} {f : Schema → β} (hr : Settled c r R) (ht : Settled d t T)
    (plan : r.Schedule order) (names : ∀ name, r.contains name = t.contains name)
    (step : ∀ s ∈ r.toList, ∀ u ∈ t.toList, u.name = s.name →
      (∀ d ∈ s.dependencies, (R.find? d).map f = (T.find? d).map f) →
      f (s.normalize c R) = f (u.normalize d T)) :
    ∀ name, (R.find? name).map f = (T.find? name).map f := by
  intro name
  exact hr.map_find?_eq_on ht plan (P := fun _ => True) (fun _ _ _ _ _ => trivial)
    (fun name _ => names name) (fun s hs _ => step s hs) name trivial

theorem SameCore.seesSame {β : Type} {f : Schema → β} {g : β → Option String × List Property}
    (h : R.SameCore T) (offer : ∀ s, g (f s) = Schema.offer s) {s : Schema}
    (deps : ∀ d ∈ s.dependencies, (R.find? d).map f = (T.find? d).map f) : s.SeesSame R T := by
  refine .of_offers (fun d hd => ?_) fun k _ p => ⟨h.declares, h.symm.declares⟩
  have := congrArg (Option.map g) (deps d hd)
  simpa only [Option.map_map, Function.comp_def, offer] using this

end ApiModel.Registry
