import Mathlib.Order.Bounds.Basic
import ApiModel.Proofs.Registry.Cycle

/-! How deep a schema stands above those that wait for nothing. The layers that `peel` takes are the
schemas of one depth each, so what comes out is the one order by depth and, at one depth, by
name. -/

namespace ApiModel

namespace Registry
open DependencyOrder

variable {r : Registry} {pending : List Schema} {s : Schema} {order : List String} {n m : String}
  {i j k : Nat}

def Descends (r : Registry) (n : String) (l : List String) : Prop := (n :: l).IsChain r.WaitsFor

/-- The longest descent from `n` has `k` steps. -/
def HasDepth (r : Registry) (n : String) (k : Nat) : Prop :=
  IsGreatest {k | ∃ l, r.Descends n l ∧ l.length = k} k

def Shallower (r : Registry) (n m : String) : Prop :=
  ∃ i j, r.HasDepth n i ∧ r.HasDepth m j ∧ (i < j ∨ i = j ∧ n < m)

/-- Every registered name once, each after all that it waits for, in order of depth and name. -/
structure ByDepth (r : Registry) (order : List String) : Prop
    extends r.DependenciesFirst order where
  hasDepth : ∀ n ∈ order, ∃ k, r.HasDepth n k
  pairwise : order.Pairwise r.Shallower

theorem Shallower.asymm (nm : r.Shallower n m) (mn : r.Shallower m n) : False := by
  obtain ⟨i, j, hi, hj, le⟩ := nm
  obtain ⟨j', i', hj', hi', ge⟩ := mn
  obtain rfl := hi.unique hi'
  obtain rfl := hj.unique hj'
  rcases le with lt | ⟨_, lt⟩ <;> rcases ge with gt | ⟨_, gt⟩
  · omega
  · omega
  · omega
  · exact String.lt_asymm lt gt

theorem ByDepth.eq {order' : List String} (h : r.ByDepth order) (h' : r.ByDepth order') :
    order = order' := by
  have perm : order.Perm order' := by
    rw [List.perm_ext_iff_of_nodup h.nodup h'.nodup]
    intro n
    rw [h.mem_iff, h'.mem_iff]
  refine perm.eq_of_pairwise ?_ h.pairwise h'.pairwise
  intro n m _ _ nm mn
  exact (nm.asymm mn).elim

structure AfterLayers (r : Registry) (k : Nat) (pending : List Schema) : Prop where
  sublist : pending.Sublist r.toList
  reached : ∀ s ∈ pending, ∃ l, r.Descends s.name l ∧ l.length = k
  taken : ∀ s ∈ pending, ∀ d, r.WaitsFor s.name d →
    (∃ t ∈ pending, t.name = d) ∨ ∀ l, r.Descends d l → l.length < k

theorem afterLayers_zero (r : Registry) : r.AfterLayers 0 r.toList where
  sublist := .refl _
  reached s _ := ⟨[], List.isChain_singleton _, rfl⟩
  taken s _ d waits := by
    obtain ⟨t, ht⟩ := Keyed.contains_iff.1 waits.1
    exact .inl ⟨t, Keyed.find?_eq_some_iff.1 ht⟩

namespace AfterLayers

variable (h : r.AfterLayers k pending)
include h

theorem waitsFor {t : Schema} (hs : s ∈ pending) (ht : t ∈ pending)
    (dep : t.name ∈ s.dependencies) : r.WaitsFor s.name t.name := by
  have known : r.contains t.name = true :=
    Keyed.contains_iff.2 ⟨t, Keyed.find?_of_mem (h.sublist.subset ht)⟩
  exact waitsFor_of_mem (h.sublist.subset hs) dep known

theorem hasDepth (hs : s ∈ layer pending) : r.HasDepth s.name k := by
  have mem : s ∈ pending := (List.mem_filter.1 hs).1
  refine ⟨h.reached s mem, ?_⟩
  rintro _ ⟨l, descends, rfl⟩
  cases l with
  | nil => exact Nat.zero_le k
  | cons d l =>
    obtain ⟨waits, rest⟩ := List.isChain_cons_cons.1 descends
    rcases h.taken s mem d waits with ⟨t, ht, rfl⟩ | shorter
    · obtain ⟨u, hu, name, dep⟩ := waits.exists_mem
      have same : u = s :=
        List.inj_on_of_nodup_map r.nodup_keys hu (h.sublist.subset mem) name
      exact absurd (same ▸ dep) (not_mem_dependencies_of_layer hs ht)
    · exact shorter l rest

theorem waiting : r.AfterLayers (k + 1) (waiting pending) where
  sublist := List.filter_sublist.trans h.sublist
  reached s hs := by
    obtain ⟨mem, unready⟩ := List.mem_filter.1 hs
    have waits : ∃ d ∈ s.dependencies, ∃ t ∈ pending, t.name = d := by
      simpa [isReady] using unready
    obtain ⟨d, dep, t, ht, rfl⟩ := waits
    obtain ⟨l, descends, rfl⟩ := h.reached t ht
    exact ⟨t.name :: l, List.isChain_cons_cons.2 ⟨h.waitsFor mem ht dep, descends⟩, rfl⟩
  taken s hs d waits := by
    rcases h.taken s (List.mem_filter.1 hs).1 d waits with ⟨t, ht, rfl⟩ | shorter
    · by_cases ready : isReady pending t = true
      · have depth := h.hasDepth (List.mem_filter.2 ⟨ht, ready⟩)
        exact .inr fun l descends => Nat.lt_succ_of_le (depth.2 ⟨l, descends, rfl⟩)
      · exact .inl ⟨t, List.mem_filter.2 ⟨ht, by simpa using ready⟩, rfl⟩
    · exact .inr fun l descends => Nat.lt_succ_of_lt (shorter l descends)

theorem exists_hasDepth : ∀ s ∈ (peel pending).1, ∃ i, k ≤ i ∧ r.HasDepth s.name i := by
  induction pending using peel.induct generalizing k with
  | case1 pending stuck =>
    rw [peel_of_stuck stuck]
    exact fun s hs => (List.not_mem_nil hs).elim
  | case2 pending taken _ _ _ _ ih =>
    rw [peel_of_layer taken]
    intro s hs
    rcases List.mem_append.1 hs with hs | hs
    · exact ⟨k, Nat.le_refl k, h.hasDepth hs⟩
    · obtain ⟨i, le, depth⟩ := ih h.waiting s hs
      exact ⟨i, Nat.le_of_succ_le le, depth⟩

theorem pairwise_shallower :
    (peel pending).1.Pairwise fun s t => r.Shallower s.name t.name := by
  induction pending using peel.induct generalizing k with
  | case1 pending stuck =>
    rw [peel_of_stuck stuck]
    exact .nil
  | case2 pending taken _ _ _ _ ih =>
    rw [peel_of_layer taken]
    have ascending : r.toList.Pairwise fun s t => s.name < t.name := List.pairwise_map.1 r.ascending
    have names : (layer pending).Pairwise fun s t => s.name < t.name :=
      (ascending.sublist h.sublist).sublist List.filter_sublist
    refine List.pairwise_append.2 ⟨?_, ih h.waiting, ?_⟩
    · refine names.imp_of_mem fun {s t} hs ht lt => ?_
      exact ⟨k, k, h.hasDepth hs, h.hasDepth ht, .inr ⟨rfl, lt⟩⟩
    · intro s hs t ht
      obtain ⟨i, le, depth⟩ := h.waiting.exists_hasDepth t ht
      exact ⟨k, i, h.hasDepth hs, depth, .inl le⟩

end AfterLayers

theorem byDepth_of_dependencyOrder (h : r.dependencyOrder = .ok order) : r.ByDepth order := by
  have start := afterLayers_zero r
  have first := (schedule_of_dependencyOrder h).dependenciesFirst
  obtain ⟨rfl, _⟩ := dependencyOrder_eq_ok h
  refine { first with hasDepth := ?_, pairwise := ?_ }
  · intro n hn
    obtain ⟨s, hs, rfl⟩ := List.mem_map.1 hn
    obtain ⟨k, _, depth⟩ := start.exists_hasDepth s hs
    exact ⟨k, depth⟩
  · exact List.pairwise_map.2 start.pairwise_shallower

theorem dependencyOrder_of_waitsFor {t : Registry} (names : ∀ n, r.contains n = t.contains n)
    (waits : r.WaitsFor = t.WaitsFor) (h : r.dependencyOrder = .ok order) :
    t.dependencyOrder = .ok order := by
  have depth : r.HasDepth = t.HasDepth := by
    unfold HasDepth Descends
    rw [waits]
  have shallower : r.Shallower = t.Shallower := by
    unfold Shallower
    rw [depth]
  have order_r := byDepth_of_dependencyOrder h
  have order_t : t.ByDepth order := by
    refine ⟨⟨order_r.nodup, fun n => ?_, fun n m => ?_⟩, ?_, ?_⟩
    · rw [order_r.mem_iff, names]
    · exact waits ▸ order_r.after n m
    · exact depth ▸ order_r.hasDepth
    · exact shallower ▸ order_r.pairwise
  obtain ⟨order', h'⟩ := exists_dependencyOrder_iff.2 order_t.schedule.acyclic
  rw [h', (byDepth_of_dependencyOrder h').eq order_t]

/-- There is an order unless schemas wait for each other in a cycle, and it is the one by depth and
name. -/
theorem dependencyOrder_byDepth (r : Registry) :
    (∀ order, r.dependencyOrder = .ok order ↔ r.ByDepth order) ∧
      ((∃ order, r.dependencyOrder = .ok order) ↔ r.Acyclic) ∧
      ((∃ chain, r.dependencyOrder = .error (.cyclicInheritance chain)) ↔ ¬ r.Acyclic) := by
  refine ⟨fun order => ⟨byDepth_of_dependencyOrder, fun h => ?_⟩,
    exists_dependencyOrder_iff, exists_cyclicInheritance_iff⟩
  have acyclic : r.Acyclic := h.toDependenciesFirst.schedule.acyclic
  obtain ⟨order', h'⟩ := exists_dependencyOrder_iff.2 acyclic
  rw [h', (byDepth_of_dependencyOrder h').eq h]

def diamond : Registry :=
  .ofList [
    (Schema.named "Base").withProperties [.plain "id" "id" "string"],
    ((Schema.named "Left").withParent "Base").withProperties [.plain "left" "left" "string"],
    ((Schema.named "Right").withParent "Missing").composedOf .allOf ["Right", "Base"],
    ((Schema.named "Tip").withParent "Left").composedOf .allOf ["Base", "Right"],
    (Schema.named "Other").composedOf .oneOf ["Tip"]]

theorem dependencyOrder_byDepth_diamond :
    diamond.ByDepth ["Base", "Other", "Left", "Right", "Tip"] := by
  refine ((dependencyOrder_byDepth diamond).1 _).1 ?_
  have found : diamond.dependencyOrder.toOption =
      some ["Base", "Other", "Left", "Right", "Tip"] := by decide +kernel
  cases h : diamond.dependencyOrder with
  | error failure => rw [h] at found; cases found
  | ok order => rw [h] at found; rw [Option.some.inj found]

end Registry

end ApiModel
