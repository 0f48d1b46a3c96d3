import Mathlib.Logic.Relation
import Mathlib.Order.WellFounded
import ApiModel.Proofs.Registry.Schedule

/-! Which schema waits for which, in terms of what is authored. The orders in which every schema
comes after all that it waits for are the schedules, and there is none where schemas wait for each
other in a cycle. -/

namespace ApiModel

namespace Schema

variable {s : Schema} {n : String} {k : Component}

/-- `s` takes in members of the schema called `n`: as its parent, or as another schema that `s` is
an `allOf` of. -/
def TakesFrom (s : Schema) (n : String) : Prop :=
  s.parent = some n ∨ n ≠ s.name ∧ ∃ k ∈ s.composedFrom, k.kind = .allOf ∧ k.name = n

theorem mem_embedded : k ∈ s.embedded ↔
    k ∈ s.composedFrom ∧ k.kind = .allOf ∧ k.name ≠ s.name := by
  simp only [embedded, List.mem_filter, Component.isAlternative, Bool.and_eq_true,
    Bool.not_eq_true', bne_eq_false_iff_eq, bne_iff_ne]

theorem mem_dependencies : n ∈ s.dependencies ↔ s.TakesFrom n := by
  rw [dependencies, List.mem_append, Option.mem_toList, List.mem_map]
  refine or_congr Iff.rfl ⟨?_, ?_⟩
  · rintro ⟨k, hk, rfl⟩
    obtain ⟨mem, kind, other⟩ := mem_embedded.1 hk
    exact ⟨other, k, mem, kind, rfl⟩
  · rintro ⟨other, k, mem, kind, rfl⟩
    exact ⟨k, mem_embedded.2 ⟨mem, kind, other⟩, rfl⟩

end Schema

namespace Registry

variable {r : Registry} {order : List String} {n m : String}

def WaitsFor (r : Registry) (n m : String) : Prop :=
  r.contains m = true ∧ ∃ s, r.find? n = some s ∧ s.TakesFrom m

theorem waitsFor_iff : r.WaitsFor n m ↔ r.contains m = true ∧ r.DependsOn n m := by
  simp only [WaitsFor, DependsOn, Schema.mem_dependencies]

theorem waitsFor_of_mem {s : Schema} (hs : s ∈ r.toList) {d : String} (hd : d ∈ s.dependencies)
    (known : r.contains d = true) : r.WaitsFor s.name d :=
  waitsFor_iff.2 ⟨known, s, Keyed.find?_of_mem hs, hd⟩

theorem WaitsFor.exists_mem (h : r.WaitsFor n m) :
    ∃ s ∈ r.toList, s.name = n ∧ m ∈ s.dependencies := by
  obtain ⟨_, s, hs, takes⟩ := h
  obtain ⟨mem, name⟩ := Keyed.find?_eq_some_iff.1 hs
  exact ⟨s, mem, name, Schema.mem_dependencies.2 takes⟩

theorem WaitsFor.contains (h : r.WaitsFor n m) : r.contains n = true := by
  obtain ⟨_, s, hs, _⟩ := h
  exact Keyed.contains_iff.2 ⟨s, hs⟩

def Acyclic (r : Registry) : Prop := ∀ n, ¬ Relation.TransGen r.WaitsFor n n

/-- Every registered name once, and each after all that it waits for. -/
structure DependenciesFirst (r : Registry) (order : List String) : Prop where
  nodup : order.Nodup
  mem_iff : ∀ n, n ∈ order ↔ r.contains n = true
  after : ∀ n m, r.WaitsFor n m → order.idxOf m < order.idxOf n

theorem dependenciesFirst_iff : r.DependenciesFirst order ↔
    order.Nodup ∧ order ⊆ r.keys ∧ r.keys ⊆ order ∧ ∀ s ∈ r.toList, ∀ d ∈ s.dependencies,
      r.contains d = true → order.idxOf d < order.idxOf s.name := by
  constructor
  · intro h
    refine ⟨h.nodup, fun n hn => ?_, fun n hn => ?_, fun s hs d hd known => ?_⟩
    · exact Keyed.contains_iff_mem_keys.1 ((h.mem_iff n).1 hn)
    · exact (h.mem_iff n).2 (Keyed.contains_iff_mem_keys.2 hn)
    · exact h.after s.name d (waitsFor_of_mem hs hd known)
  · rintro ⟨nodup, known, complete, after⟩
    refine ⟨nodup, fun n => ?_, fun n m waits => ?_⟩
    · rw [Keyed.contains_iff_mem_keys]
      exact ⟨fun hn => known hn, fun hn => complete hn⟩
    · obtain ⟨s, hs, rfl, dep⟩ := waits.exists_mem
      exact after s hs m dep waits.1

instance (r : Registry) (order : List String) : Decidable (r.DependenciesFirst order) :=
  decidable_of_iff' _ dependenciesFirst_iff

theorem DependenciesFirst.schedule (h : r.DependenciesFirst order) : r.Schedule order where
  nodup := h.nodup
  mem_iff := h.mem_iff
  irrefl n hn dep := by
    have waits : r.WaitsFor n n := waitsFor_iff.2 ⟨(h.mem_iff n).1 hn, dep⟩
    exact Nat.lt_irrefl _ (h.after n n waits)
  pairwise := by
    rw [List.pairwise_iff_getElem]
    intro i j hi hj lt dep
    have known : r.contains order[j] = true := (h.mem_iff _).1 (List.getElem_mem hj)
    have before : order.idxOf order[j] < order.idxOf order[i] :=
      h.after _ _ (waitsFor_iff.2 ⟨known, dep⟩)
    rw [h.nodup.idxOf_getElem j hj, h.nodup.idxOf_getElem i hi] at before
    omega

theorem Schedule.dependenciesFirst (h : r.Schedule order) : r.DependenciesFirst order where
  nodup := h.nodup
  mem_iff := h.mem_iff
  after n m waits := by
    have dep : r.DependsOn n m := (waitsFor_iff.1 waits).2
    have hn : n ∈ order := (h.mem_iff n).2 waits.contains
    have hm : m ∈ order := (h.mem_iff m).2 waits.1
    have hi := List.idxOf_lt_length_of_mem hn
    have hj := List.idxOf_lt_length_of_mem hm
    rcases Nat.lt_trichotomy (order.idxOf m) (order.idxOf n) with before | same | behind
    · exact before
    · have eq : m = n := (List.idxOf_inj hm).1 same
      exact absurd (eq ▸ dep) (h.irrefl n hn)
    · have free := List.pairwise_iff_getElem.1 h.pairwise _ _ hi hj behind
      rw [List.getElem_idxOf hi, List.getElem_idxOf hj] at free
      exact absurd dep free

theorem Schedule.wellFounded (h : r.Schedule order) : WellFounded (Function.swap r.WaitsFor) := by
  have settled : ∀ s ∈ r.toList, Acc (Function.swap r.WaitsFor) s.name := by
    refine h.induction (P := Acc (Function.swap r.WaitsFor)) ?_
    intro s hs deps
    refine ⟨_, fun m waits => ?_⟩
    obtain ⟨u, hu, name, dep⟩ := WaitsFor.exists_mem waits
    have same : u = s := List.inj_on_of_nodup_map r.nodup_keys hu hs name
    exact deps m (same ▸ dep) waits.1
  refine ⟨fun n => ⟨n, fun m waits => ?_⟩⟩
  obtain ⟨u, hu⟩ := Keyed.contains_iff.1 waits.1
  obtain ⟨mem, rfl⟩ := Keyed.find?_eq_some_iff.1 hu
  exact settled u mem

theorem Schedule.acyclic (h : r.Schedule order) : r.Acyclic := by
  intro n cycle
  have swapped : Relation.TransGen (Function.swap r.WaitsFor) n n :=
    Relation.transGen_swap.2 cycle
  exact h.wellFounded.transGen.asymmetric n n swapped swapped

end Registry

end ApiModel
