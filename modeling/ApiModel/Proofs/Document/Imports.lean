import ApiModel.Proofs.Document.Outcome
import ApiModel.Proofs.Registry.Dangling
import ApiModel.Proofs.Registry.Labels

/-! What the schemas of a model import. It can be told from the model alone: from what a schema is
composed from, extends and refers to in its members, and in tagged unions from the children of a
base. No schema imports itself, and each import is listed once with its file. -/

namespace ApiModel

namespace Registry

variable {R : Registry} {order : List String} {n name : String}

theorem mem_importedChildren : n ∈ R.importedChildren name ↔
    n ≠ name ∧ (R.base? name).isSome = true ∧ n ∈ (R.children name).toList ∧
      R.contains n = true := by
  have registered : n ∈ (R.childSchemas name).map (·.name) ↔
      n ∈ (R.children name).toList ∧ R.contains n = true := by
    rw [childSchemas, List.mem_map, Keyed.contains_iff]
    simp only [List.mem_filterMap]
    constructor
    · rintro ⟨u, ⟨k, hk, found⟩, rfl⟩
      have key : u.name = k := Keyed.key_of_find? found
      exact ⟨key ▸ hk, u, key ▸ found⟩
    · rintro ⟨child, u, found⟩
      exact ⟨u, ⟨n, child, found⟩, Keyed.key_of_find? found⟩
  unfold importedChildren
  cases R.base? name with
  | none => simp
  | some pair =>
    rw [List.mem_filter, registered, bne_iff_ne, and_comm]
    simp

theorem mem_importedInTurn :
    n ∈ R.importedInTurn order name ↔ name ∈ order ∧ n ∈ R.importedChildren name := by
  unfold importedInTurn
  rw [List.mem_flatMap]
  constructor
  · rintro ⟨base, hbase, imported⟩
    obtain ⟨mem, same⟩ := List.mem_filter.1 hbase
    obtain rfl : base = name := eq_of_beq same
    exact ⟨mem, imported⟩
  · rintro ⟨mem, imported⟩
    exact ⟨name, List.mem_filter.2 ⟨mem, beq_self_eq_true name⟩, imported⟩

end Registry

def Schema.RefersTo (t : Schema) (n : String) : Prop :=
  ∃ p ∈ t.view.members.all, p.complexType = some n

/-- The model has a schema called `n` that `t` declares as its child or that has it as its parent. -/
def Model.HasChild (m : Model) (t : Schema) (n : String) : Prop :=
  ∃ u, m.schema? n = some u ∧ (n ∈ t.children ∨ u.parent = some t.name)

def Model.importsOf (m : Model) (name : String) : Option (List String) :=
  (m.schema? name).map (·.view.imports.toList)

/-- What the schema `t` of the model `m` imports. -/
structure Schema.ImportsExactly (c : Config) (m : Model) (t : Schema) : Prop where
  notItself : t.name ∉ t.view.imports.toList
  classical : c.profile = .classical → ∀ n, n ∈ t.view.imports.toList ↔ n ≠ t.name ∧
    (t.IsComposedFrom n ∨ t.view.base = some n ∨ t.RefersTo n)
  taggedUnion : c.profile = .taggedUnion → ∀ n, n ∈ t.view.imports.toList ↔ n ≠ t.name ∧
    (t.IsComposedFrom n ∧ t.parent ≠ some n ∨ t.RefersTo n ∨
      t.discriminator.isSome = true ∧ m.HasChild t n)
  ascending : (t.view.modelImports.map (·.className)).Pairwise (· < ·)
  listed : ∀ i, i ∈ t.view.modelImports ↔
    i.className ∈ t.view.imports.toList ∧ i.fileName = c.naming.fileName i.className

namespace Document

variable {c : Config} {d : Document} {m : Model} {r R : Registry} {as : List TagAssignment}
  {imports : String → List String} {order : List String} {s : Schema} {n : String}

theorem isComposedFrom_finish : ((s.normalize c R).finish c.naming as imports).IsComposedFrom n ↔
    s.IsComposedFrom n := Schema.isComposedFrom_normalize (c := c) (r := R)

theorem refersTo_finish : ((s.normalize c R).finish c.naming as imports).RefersTo n ↔
    ∃ p ∈ (s.members c R).all, p.complexType = some n := by
  have tagless (q : Property) (name : String) :
      (q.retag as name).complexType = some n ↔ q.complexType = some n := by
    rw [Property.apply_retag (f := Property.complexType) fun _ => rfl]
  unfold Schema.RefersTo
  rw [Schema.exists_mem_all_finish_iff tagless, Schema.exists_mem_all_normalize_iff]

theorem mem_imports_finish :
    n ∈ ((s.normalize c R).finish c.naming as imports).view.imports.toList ↔ n ≠ s.name ∧
      (s.IsComposedFrom n ∧ (c.profile = .taggedUnion → s.parent ≠ some n) ∨
        s.base c R = some n ∨ ((s.normalize c R).finish c.naming as imports).RefersTo n) ∨
      n ∈ imports s.name := by
  have before : n ∈ (s.importsFor c R (s.members c R).all).toList ↔ _ := Schema.mem_importsFor
  rw [Schema.mem_imports_finish, refersTo_finish]
  show n ∈ (s.importsFor c R (s.members c R).all).toList ∨ _ ↔ _
  rw [before]
  rfl

theorem mem_imports_iff_of_classical (classical : c.profile = .classical) :
    let t := (s.normalize c R).finish c.naming as (R.imported c order)
    n ∈ t.view.imports.toList ↔
      n ≠ t.name ∧ (t.IsComposedFrom n ∨ t.view.base = some n ∨ t.RefersTo n) := by
  intro t
  have alone : R.imported c order s.name = [] := by
    rw [Registry.imported, classical]
    rfl
  rw [mem_imports_finish, alone, or_iff_left List.not_mem_nil, isComposedFrom_finish, classical]
  simp only [reduceCtorEq, false_imp_iff, and_true]
  rfl

theorem pairwise_className_modelImports (t : Schema) :
    ((t.finish c.naming as imports).view.modelImports.map (·.className)).Pairwise (· < ·) := by
  have names : (t.finish c.naming as imports).view.modelImports.map (·.className) =
      (t.finish c.naming as imports).view.imports.toList.map id := List.map_map
  rw [names]
  exact (t.finish c.naming as imports).view.imports.ascending

theorem mem_modelImports_finish (t : Schema) (i : ModelImport) :
    i ∈ (t.finish c.naming as imports).view.modelImports ↔
      i.className ∈ (t.finish c.naming as imports).view.imports.toList ∧
        i.fileName = c.naming.fileName i.className := by
  have listed : (t.finish c.naming as imports).view.modelImports =
      (t.finish c.naming as imports).view.imports.toList.map fun name =>
        { className := name, fileName := c.naming.fileName name } := rfl
  rw [listed, List.mem_map]
  constructor
  · rintro ⟨name, mem, rfl⟩
    exact ⟨mem, rfl⟩
  · rintro ⟨mem, file⟩
    exact ⟨i.className, mem, by rw [← file]⟩

namespace Outcome

theorem hasChild_finish (h : Outcome c d m r R as imports) (hs : s ∈ d.schemas) :
    m.HasChild ((s.normalize c R).finish c.naming as imports) n ↔
      n ∈ (R.children s.name).toList ∧ R.contains n = true := by
  have child {u : Schema} (found : R.find? n = some u) : n ∈ (R.children s.name).toList ↔
      n ∈ s.children ∨ u.parent = some s.name := by
    obtain rfl : u.name = n := Keyed.key_of_find? found
    have linked := Registry.mem_children (h.find? hs) found
    exact linked
  rw [Keyed.contains_iff]
  unfold Model.HasChild
  simp only [h.schema?, Option.map_eq_some_iff]
  constructor
  · rintro ⟨_, ⟨u, found, rfl⟩, linked⟩
    exact ⟨(child found).2 linked, u, found⟩
  · rintro ⟨mem, u, found⟩
    exact ⟨_, ⟨u, found, rfl⟩, (child found).1 mem⟩

theorem mem_imported (h : Outcome c d m r R as imports) (hs : s ∈ d.schemas)
    (plan : r.dependencyOrder = .ok order) (tagged : c.profile.isTaggedUnion = true) :
    n ∈ R.imported c order s.name ↔ n ≠ s.name ∧
      ((s.normalize c R).finish c.naming as imports).discriminator.isSome = true ∧
      m.HasChild ((s.normalize c R).finish c.naming as imports) n := by
  have inOrder : s.name ∈ order :=
    ((Registry.schedule_of_dependencyOrder plan).mem_iff s.name).2 (h.contains hs)
  have base : (R.base? s.name).isSome = s.discriminator.isSome := by
    rw [Registry.base?, h.find? hs, Option.bind_some, Option.isSome_map]
    rfl
  rw [Registry.imported, if_pos tagged, Registry.mem_importedInTurn, and_iff_right inOrder,
    Registry.mem_importedChildren, base, h.hasChild_finish hs]
  rfl

theorem mem_imports_iff_of_taggedUnion (h : Outcome c d m r R as (R.imported c order))
    (hs : s ∈ d.schemas) (plan : r.dependencyOrder = .ok order)
    (tagged : c.profile = .taggedUnion) :
    let t := (s.normalize c R).finish c.naming as (R.imported c order)
    n ∈ t.view.imports.toList ↔ n ≠ t.name ∧ (t.IsComposedFrom n ∧ t.parent ≠ some n ∨
      t.RefersTo n ∨ t.discriminator.isSome = true ∧ m.HasChild t n) := by
  intro t
  have isTagged : c.profile.isTaggedUnion = true := by
    rw [tagged]
    rfl
  have extendsNone : s.base c R = none := by rw [Schema.base, if_pos isTagged]
  rw [mem_imports_finish, h.mem_imported hs plan isTagged, isComposedFrom_finish, extendsNone,
    ← and_or_left]
  simp only [tagged, true_imp_iff, reduceCtorEq, false_or, or_assoc]
  rfl

theorem importsExactly (h : Outcome c d m r R as (R.imported c order)) (hs : s ∈ d.schemas)
    (plan : r.dependencyOrder = .ok order) :
    ((s.normalize c R).finish c.naming as (R.imported c order)).ImportsExactly c m := by
  constructor
  case notItself =>
    intro itself
    cases profile : c.profile with
    | classical => exact ((mem_imports_iff_of_classical profile).1 itself).1 rfl
    | taggedUnion => exact ((h.mem_imports_iff_of_taggedUnion hs plan profile).1 itself).1 rfl
  case classical => exact fun profile n => mem_imports_iff_of_classical profile
  case taggedUnion => exact fun profile n => h.mem_imports_iff_of_taggedUnion hs plan profile
  case ascending => exact pairwise_className_modelImports _
  case listed => exact mem_modelImports_finish _

end Outcome

/-- The imports of a schema are told by its components, its base, its members and its children. -/
theorem normalize_imports (h : d.normalize c = .ok m) : ∀ t ∈ m.schemas, t.ImportsExactly c m := by
  obtain ⟨r, R, order, plan, out⟩ := exists_outcome_imported h
  intro t ht
  rw [out.schemas] at ht
  obtain ⟨s, hs, rfl⟩ := List.mem_map.1 ht
  exact out.importsExactly (out.mem_iff.1 hs) plan

def garage : Document where
  schemas := [
    { ((Schema.named "Vehicle").withDiscriminator "kind" []).composedOf .oneOf
        ["Car", "Vehicle", "Null"] with
      children := ["Boat", "Raft"]
      properties := [(Property.plain "engine" "engine" "Engine").referencing "Engine"] },
    ((Schema.named "Car").withParent "Vehicle").composedOf .allOf ["Vehicle"],
    Schema.named "Boat"]

theorem normalize_imports_garage : ∃ m u, garage.normalize {} = .ok m ∧
    m.importsOf "Vehicle" = some ["Car", "Engine"] ∧ m.importsOf "Car" = some ["Engine", "Vehicle"] ∧
    (∀ t ∈ m.schemas, t.ImportsExactly {} m) ∧
    garage.normalize { profile := .taggedUnion } = .ok u ∧
    u.importsOf "Vehicle" = some ["Boat", "Car", "Engine"] ∧ u.importsOf "Car" = some ["Engine"] ∧
    ∀ t ∈ u.schemas, t.ImportsExactly { profile := .taggedUnion } u := by
  obtain ⟨m, hm, shown⟩ := exists_normalize_of_any (d := garage) (c := {}) (P := fun m => decide (
    m.importsOf "Vehicle" = some ["Car", "Engine"] ∧
      m.importsOf "Car" = some ["Engine", "Vehicle"])) (by decide +kernel)
  obtain ⟨u, hu, shown'⟩ := exists_normalize_of_any (d := garage) (c := { profile := .taggedUnion })
    (P := fun u => decide (u.importsOf "Vehicle" = some ["Boat", "Car", "Engine"] ∧
      u.importsOf "Car" = some ["Engine"])) (by decide +kernel)
  obtain ⟨vehicle, car⟩ := of_decide_eq_true shown
  obtain ⟨vehicle', car'⟩ := of_decide_eq_true shown'
  exact ⟨m, u, hm, vehicle, car, normalize_imports hm, hu, vehicle', car', normalize_imports hu⟩

end Document

end ApiModel
