import Mathlib.Data.List.Forall2
import ApiModel.Proofs.Document

/-! What a document's schemas become. Each is normalized against a settled registry, then its
members are tagged and its imports completed, and the model lists the results. -/

namespace ApiModel

/-- What is left to do with a schema once it is normalized. -/
def Schema.finish (m : Naming) (as : List TagAssignment) (imports : String → List String)
    (s : Schema) : Schema :=
  ((s.retag as).addImports (imports s.name)).assignModelImports m

theorem Schema.mem_imports_finish {m : Naming} {as : List TagAssignment}
    {imports : String → List String} {s : Schema} {n : String} :
    n ∈ (s.finish m as imports).view.imports.toList ↔
      n ∈ s.view.imports.toList ∨ n ∈ imports s.name := Keyed.mem_toList_putAll

def Registry.assigned (c : Config) (r : Registry) (order : List String) : List TagAssignment :=
  if c.profile.isTaggedUnion then order.flatMap r.tagAssignments else []

def Registry.imported (c : Config) (r : Registry) (order : List String) : String → List String :=
  if c.profile.isTaggedUnion then r.importedInTurn order else fun _ => []

theorem Registry.find?_finish (c : Config) (r : Registry) (order : List String) (n : String) :
    ((r.assignTags c order).assignModelImports c.naming).find? n =
      (r.find? n).map (Schema.finish c.naming (r.assigned c order) (r.imported c order)) := by
  unfold assigned imported
  cases h : c.profile.isTaggedUnion with
  | false =>
    have untouched : Schema.finish c.naming [] (fun _ => []) =
        Schema.assignModelImports c.naming := by
      funext s
      show Schema.assignModelImports c.naming (s.retag []) = _
      rw [Schema.retag_nil]
    rw [assignTags_of_classical h, find?_assignModelImports, if_neg Bool.false_ne_true,
      if_neg Bool.false_ne_true, untouched]
  | true =>
    rw [find?_assignModelImports, find?_assignTags h, Option.map_map, if_pos rfl, if_pos rfl]
    apply Option.map_congr
    intro s hs
    rw [← Keyed.key_of_find? hs]
    rfl

namespace Document

/-- The schemas of `m` are those of `d` in some order, and `P` holds of each and what it became. -/
def EachBecomes (d : Document) (m : Model) (P : Schema → Schema → Prop) : Prop :=
  ∃ authored, authored.Perm d.schemas ∧
    List.Forall₂ (fun s t => s.name = t.name ∧ P s t) authored m.schemas

/-- A run of `d` to `m`, by the registry `r` that `d` fills and the one `R` that `r` settles to. -/
structure Outcome (c : Config) (d : Document) (m : Model) (r R : Registry)
    (as : List TagAssignment) (imports : String → List String) : Prop where
  admitted : Registry.ofSchemas d.schemas = .ok r
  scheduled : ∃ order, r.Schedule order
  settled : Registry.Settled c r R
  schema? : ∀ n, m.schema? n = (R.find? n).map (Schema.finish c.naming as imports)
  schemas : m.schemas = r.toList.map fun s => (s.normalize c R).finish c.naming as imports

variable {c : Config} {d : Document} {m : Model} {r R : Registry} {as : List TagAssignment}
  {imports : String → List String}

theorem exists_outcome_imported (h : d.normalize c = .ok m) : ∃ r R order,
    r.dependencyOrder = .ok order ∧
      Outcome c d m r R (R.assigned c order) (R.imported c order) := by
  obtain ⟨r, F, ops, hr, hF, _, rfl⟩ := normalize_eq_ok_iff.1 h
  obtain ⟨order, plan, rfl⟩ := Registry.normalize_eq_ok_iff.1 hF
  have schedule := Registry.schedule_of_dependencyOrder plan
  have settled := schedule.settled c
  have found := Registry.find?_finish c (r.normalizeEach c order) order
  refine ⟨r, r.normalizeEach c order, order, plan, hr, ⟨order, schedule⟩, settled, found, ?_⟩
  let become (s : Schema) := (s.normalize c (r.normalizeEach c order)).finish c.naming
    ((r.normalizeEach c order).assigned c order) ((r.normalizeEach c order).imported c order)
  have name (s : Schema) : (become s).name = s.name := rfl
  have whole : Registry.assignModelImports c.naming ((r.normalizeEach c order).assignTags c order) =
      r.map become name := by
    apply Keyed.ext_find?
    intro n
    rw [found, settled n, Option.map_map, Keyed.find?_map]
    rfl
  exact congrArg Keyed.toList whole

theorem exists_outcome_assigned (h : d.normalize c = .ok m) : ∃ r R order imports,
    r.dependencyOrder = .ok order ∧ Outcome c d m r R (R.assigned c order) imports := by
  obtain ⟨r, R, order, plan, out⟩ := exists_outcome_imported h
  exact ⟨r, R, order, R.imported c order, plan, out⟩

theorem exists_outcome (h : d.normalize c = .ok m) :
    ∃ r R as imports, Outcome c d m r R as imports := by
  obtain ⟨r, R, order, imports, _, out⟩ := exists_outcome_assigned h
  exact ⟨r, R, R.assigned c order, imports, out⟩

namespace Outcome

variable (h : Outcome c d m r R as imports)
include h

theorem mem_iff {s : Schema} : s ∈ r.toList ↔ s ∈ d.schemas :=
  (Registry.ofSchemas_eq_ok_iff.1 h.admitted).2.2.mem_iff

theorem distinctNames {s : Schema} (hs : s ∈ d.schemas) : Property.DistinctNames s.properties :=
  (Registry.ofSchemas_eq_ok_iff.1 h.admitted).1 s hs

theorem contains {s : Schema} (hs : s ∈ d.schemas) : r.contains s.name = true :=
  Keyed.contains_iff.2 ⟨s, Keyed.find?_of_mem (h.mem_iff.2 hs)⟩

theorem find? {s : Schema} (hs : s ∈ d.schemas) : R.find? s.name = some (s.normalize c R) :=
  h.settled.find? (h.mem_iff.2 hs)

theorem exists_of_schema? {n : String} {t : Schema} (found : m.schema? n = some t) :
    ∃ s ∈ d.schemas, s.name = n ∧ (s.normalize c R).finish c.naming as imports = t := by
  rw [h.schema?, h.settled, Option.map_map] at found
  obtain ⟨s, hs, rfl⟩ := Option.map_eq_some_iff.1 found
  obtain ⟨mem, name⟩ := Keyed.find?_eq_some_iff.1 hs
  exact ⟨s, h.mem_iff.1 mem, name, rfl⟩

theorem map_unmarkedOffer_schema? (n : String) :
    (m.schema? n).map Schema.unmarkedOffer = (R.find? n).map Schema.unmarkedOffer := by
  rw [h.schema?, Option.map_map]
  apply Option.map_congr
  intro u _
  show (u.discriminatorProperty, (u.view.members.all.map _).map Property.unmarked) = _
  rw [Property.map_unmarked_retag]
  rfl

theorem eachBecomes {P : Schema → Schema → Prop}
    (each : ∀ s ∈ d.schemas, P s ((s.normalize c R).finish c.naming as imports)) :
    d.EachBecomes m P := by
  refine ⟨r.toList, (Registry.ofSchemas_eq_ok_iff.1 h.admitted).2.2, ?_⟩
  rw [h.schemas, List.forall₂_map_right_iff, List.forall₂_same]
  intro s hs
  exact ⟨rfl, each s (h.mem_iff.1 hs)⟩

end Outcome

end Document

namespace Schema

variable {c : Config} {R : Registry} {n : Naming} {as : List TagAssignment}
  {imports : String → List String} {s u : Schema} {p : Property}

theorem exists_mem_all_finish_iff {P : Property → Prop}
    (tagless : ∀ q name, P (q.retag as name) ↔ P q) :
    (∃ p ∈ (u.finish n as imports).view.members.all, P p) ↔ ∃ p ∈ u.view.members.all, P p := by
  have all : (u.finish n as imports).view.members.all =
      u.view.members.all.map (Property.retag as u.name) := rfl
  rw [all]
  simp only [List.mem_map, exists_exists_and_eq_and, tagless]

theorem exists_mem_all_normalize_iff {P : Property → Prop} :
    (∃ p ∈ (s.normalize c R).view.members.all, P p) ↔ ∃ p ∈ (members c R s).all, P p :=
  exists_congr fun _ => and_congr_left fun _ => Property.mem_sort

theorem exists_of_mem_lists_finish {l : List Property}
    (hl : l ∈ ((s.normalize c R).finish n as imports).view.members.lists) (hp : p ∈ l) :
    ∃ l₀ ∈ (members c R s).lists, ∃ q ∈ l₀, q.retag as s.name = p := by
  have lists : ((s.normalize c R).finish n as imports).view.members.lists =
      ((members c R s).lists.map Property.sort).map (·.map (Property.retag as s.name)) := rfl
  rw [lists, List.map_map] at hl
  obtain ⟨l₀, hl₀, rfl⟩ := List.mem_map.1 hl
  obtain ⟨q, hq, rfl⟩ := List.mem_map.1 hp
  exact ⟨l₀, hl₀, q, Property.mem_sort.1 hq, rfl⟩

end Schema

end ApiModel
