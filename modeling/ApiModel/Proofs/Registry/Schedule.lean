import ApiModel.Proofs.Keyed
import ApiModel.Registry.DependencyOrder

/-! Orders in which every schema comes after all that it depends on. The layers of
`dependencyOrder` form such an order, and what is shown of each schema from its dependencies
holds of all schemas that have a place in one. -/

namespace ApiModel

namespace Registry

variable {r : Registry} {order : List String}

def DependsOn (r : Registry) (name d : String) : Prop :=
  ∃ s, r.find? name = some s ∧ d ∈ s.dependencies

/-- Every name once, and none before or at one that it depends on. -/
structure Schedule (r : Registry) (order : List String) : Prop where
  nodup : order.Nodup
  mem_iff : ∀ name, name ∈ order ↔ r.contains name = true
  irrefl : ∀ name ∈ order, ¬ r.DependsOn name name
  pairwise : order.Pairwise fun earlier later => ¬ r.DependsOn earlier later

theorem Schedule.induction (h : r.Schedule order) {P : String → Prop}
    (step : ∀ s ∈ r.toList, (∀ d ∈ s.dependencies, r.contains d = true → P d) → P s.name) :
    ∀ s ∈ r.toList, P s.name := by
  -- Whatever stands before the remaining names is settled, so the first of them can be.
  have key : ∀ rest : List String, (∀ name ∈ rest, ¬ r.DependsOn name name) →
      rest.Pairwise (fun earlier later => ¬ r.DependsOn earlier later) →
      (∀ s ∈ r.toList, s.name ∉ rest → P s.name) → ∀ s ∈ r.toList, P s.name := by
    intro rest irrefl pairwise settled
    induction rest with
    | nil => exact fun s hs => settled s hs (List.not_mem_nil)
    | cons name rest ih =>
      obtain ⟨first, later⟩ := List.pairwise_cons.1 pairwise
      refine ih (fun n hn => irrefl n (List.mem_cons_of_mem _ hn)) later ?_
      intro s hs fresh
      by_cases eq : s.name = name
      · apply step s hs
        intro d hd known
        obtain ⟨t, ht⟩ := Keyed.contains_iff.1 known
        obtain ⟨mem, rfl⟩ := Keyed.find?_eq_some_iff.1 ht
        have depends : r.DependsOn name t.name := ⟨s, eq ▸ Keyed.find?_of_mem hs, hd⟩
        refine settled t mem fun h => ?_
        rcases List.mem_cons.1 h with self | after
        · exact irrefl name List.mem_cons_self (self ▸ depends)
        · exact first _ after depends
      · exact settled s hs fun h => (List.mem_cons.1 h).elim eq fresh
  refine key order h.irrefl h.pairwise fun s hs fresh => ?_
  have : s.name ∈ order := (h.mem_iff s.name).2 (Keyed.contains_iff.2 ⟨s, Keyed.find?_of_mem hs⟩)
  exact absurd this fresh

end Registry

namespace DependencyOrder

theorem not_mem_dependencies_of_layer {pending : List Schema} {s t : Schema}
    (hs : s ∈ layer pending) (ht : t ∈ pending) : t.name ∉ s.dependencies := by
  intro dep
  have ready := List.all_eq_true.1 (List.mem_filter.1 hs).2 _ dep
  simpa using List.all_eq_true.1 ready t ht

theorem layer_append_waiting_perm (pending : List Schema) :
    (layer pending ++ waiting pending).Perm pending := List.filter_append_perm _ _

theorem peel_of_stuck {pending : List Schema} (h : layer pending = []) :
    peel pending = ([], pending) := by rw [peel, dif_pos h]

theorem peel_of_layer {pending : List Schema} (h : layer pending ≠ []) :
    peel pending =
      (layer pending ++ (peel (waiting pending)).1, (peel (waiting pending)).2) := by
  rw [peel, dif_neg h]

theorem peel_perm (pending : List Schema) :
    ((peel pending).1 ++ (peel pending).2).Perm pending := by
  induction pending using peel.induct with
  | case1 pending h => rw [peel_of_stuck h, List.nil_append]
  | case2 pending h _ _ _ _ ih =>
    rw [peel_of_layer h, List.append_assoc]
    exact (ih.append_left _).trans (layer_append_waiting_perm pending)

theorem mem_of_mem_peel {pending : List Schema} {s : Schema} (hs : s ∈ (peel pending).1) :
    s ∈ pending := (peel_perm pending).mem_iff.1 (List.mem_append_left _ hs)

theorem not_mem_dependencies_of_peel (pending : List Schema) :
    ∀ s ∈ (peel pending).1, s.name ∉ s.dependencies := by
  induction pending using peel.induct with
  | case1 pending h =>
    rw [peel_of_stuck h]
    exact fun s hs => (List.not_mem_nil hs).elim
  | case2 pending h _ _ _ _ ih =>
    rw [peel_of_layer h]
    intro s hs
    rcases List.mem_append.1 hs with hs | hs
    · exact not_mem_dependencies_of_layer hs (List.mem_filter.1 hs).1
    · exact ih s hs

theorem peel_pairwise (pending : List Schema) :
    (peel pending).1.Pairwise fun s t => t.name ∉ s.dependencies := by
  induction pending using peel.induct with
  | case1 pending h =>
    rw [peel_of_stuck h]
    exact .nil
  | case2 pending h _ _ _ _ ih =>
    rw [peel_of_layer h]
    -- All that comes with or after a layer was pending when the layer waited for nothing.
    refine List.pairwise_append.2 ⟨List.pairwise_of_forall_mem_list ?_, ih, ?_⟩
    · intro s hs t ht
      exact not_mem_dependencies_of_layer hs (List.mem_filter.1 ht).1
    · intro s hs t ht
      exact not_mem_dependencies_of_layer hs (List.mem_filter.1 (mem_of_mem_peel ht)).1

end DependencyOrder

namespace Registry
open DependencyOrder

theorem dependencyOrder_eq_ok {r : Registry} {order : List String}
    (h : r.dependencyOrder = .ok order) :
    order = (peel r.toList).1.map (·.name) ∧ (peel r.toList).2 = [] := by
  unfold dependencyOrder at h
  split at h
  next heq =>
    rw [heq]
    exact ⟨(Except.ok.inj h).symm, rfl⟩
  next => cases h

theorem schedule_of_dependencyOrder {r : Registry} {order : List String}
    (h : r.dependencyOrder = .ok order) : r.Schedule order := by
  obtain ⟨rfl, none⟩ := dependencyOrder_eq_ok h
  have perm : (peel r.toList).1.Perm r.toList := by
    simpa only [none, List.append_nil] using peel_perm r.toList
  have deps {s : Schema} {d : String} (hs : s ∈ (peel r.toList).1) (dep : r.DependsOn s.name d) :
      d ∈ s.dependencies := by
    obtain ⟨t, ht, hd⟩ := dep
    rw [Keyed.find?_of_mem (perm.mem_iff.1 hs)] at ht
    exact Option.some.inj ht ▸ hd
  constructor
  · exact (perm.map _).symm.nodup r.nodup_keys
  · intro name
    rw [(perm.map _).mem_iff, Keyed.contains_iff_mem_keys]
  · intro name hname dep
    obtain ⟨s, hs, rfl⟩ := List.mem_map.1 hname
    exact not_mem_dependencies_of_peel _ s hs (deps hs dep)
  · rw [List.pairwise_map]
    refine (peel_pairwise r.toList).imp_of_mem ?_
    intro s t hs _ fresh dep
    exact fresh (deps hs dep)

end Registry

/-- What the place of a schema in the order is found from. -/
def Schema.outline (s : Schema) : Schema :=
  { name := s.name, parent := s.parent, composedFrom := s.embedded }

@[simp] theorem Schema.name_outline (s : Schema) : s.outline.name = s.name := rfl

@[simp] theorem Schema.dependencies_outline (s : Schema) :
    s.outline.dependencies = s.dependencies := by
  simp only [dependencies, embedded, outline, List.filter_filter, Bool.and_self]

namespace DependencyOrder

theorem isReady_outline (pending : List Schema) (s : Schema) :
    isReady (pending.map Schema.outline) s.outline = isReady pending s := by
  simp only [isReady, Schema.dependencies_outline, List.all_map, Function.comp_def,
    Schema.name_outline]

theorem layer_outline (pending : List Schema) :
    layer (pending.map Schema.outline) = (layer pending).map Schema.outline := by
  simp only [layer, List.filter_map, Function.comp_def, isReady_outline]

theorem waiting_outline (pending : List Schema) :
    waiting (pending.map Schema.outline) = (waiting pending).map Schema.outline := by
  simp only [waiting, List.filter_map, Function.comp_def, isReady_outline]

theorem peel_outline (pending : List Schema) : peel (pending.map Schema.outline) =
    ((peel pending).1.map Schema.outline, (peel pending).2.map Schema.outline) := by
  induction pending using peel.induct with
  | case1 pending h =>
    rw [peel_of_stuck h, peel_of_stuck (by rw [layer_outline, h, List.map_nil]), List.map_nil]
  | case2 pending h _ _ _ _ ih =>
    have h' : layer (pending.map Schema.outline) ≠ [] := by
      rwa [layer_outline, ne_eq, List.map_eq_nil_iff]
    rw [peel_of_layer h, peel_of_layer h', layer_outline, waiting_outline, ih, List.map_append]

theorem next?_outline (stuck : List Schema) :
    next? (stuck.map Schema.outline) = next? stuck := by
  funext name
  simp only [next?, List.find?_map, List.any_map, Function.comp_def, Option.bind_map,
    Schema.dependencies_outline]
  rfl

end DependencyOrder

namespace Registry
open DependencyOrder

theorem dependencyOrder_outline (r : Registry) :
    dependencyOrder (r.map Schema.outline Schema.name_outline) = r.dependencyOrder := by
  unfold dependencyOrder
  rw [Keyed.toList_map, peel_outline]
  rcases peel r.toList with ⟨order, _ | ⟨s, stuck⟩⟩
  · simp only [List.map_nil, List.map_map]
    rfl
  · simp only [List.map_cons, ← next?_outline (s :: stuck), List.map_map]
    rfl

theorem dependencyOrder_congr {r t : Registry}
    (h : ∀ name, (r.find? name).map Schema.outline = (t.find? name).map Schema.outline) :
    r.dependencyOrder = t.dependencyOrder := by
  have outlines : r.map Schema.outline Schema.name_outline =
      t.map Schema.outline Schema.name_outline := by
    apply Keyed.ext_find?
    intro name
    rw [Keyed.find?_map, Keyed.find?_map, h]
  rw [← dependencyOrder_outline r, outlines, dependencyOrder_outline]

end Registry

end ApiModel
