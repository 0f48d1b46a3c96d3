import Mathlib.Data.List.Forall2
import ApiModel.Proofs.Document.Outcome
import ApiModel.Proofs.Registry.Dangling

/-! Documents with links that lead to none of their schemas. Left out, such links are missed nowhere
but in the imports, where the name of a component stands whether something answers to it or not. -/

namespace ApiModel

/-- Two schemas of which `u` became what it is without the links that `t` has to unknown schemas. -/
structure Schema.SameButUnknown (c : Config) (known : String → Bool) (t u : Schema) : Prop where
  rest : (t.grounded known).withoutImports = u.withoutImports
  imports : ∀ n, n ∈ t.view.imports.toList ↔
    n ∈ u.view.imports.toList ∨ t.ImportsUnknown c known n
  modelImports : ∀ s ∈ [t, u], s.view.modelImports = s.view.imports.toList.map fun name =>
    { className := name, fileName := c.naming.fileName name }

namespace Document

variable {c : Config} {d : Document} {m : Model} {r R T : Registry} {as : List TagAssignment}
  {imports : String → List String} {s : Schema} {n : String}

def knows (d : Document) (n : String) : Bool := d.schemas.any (·.name == n)

def grounded (d : Document) : Document :=
  { d with schemas := d.schemas.map (Schema.grounded d.knows) }

theorem contains_eq_knows (h : Registry.ofSchemas d.schemas = .ok r) : r.contains = d.knows :=
  funext (Registry.contains_of_ofSchemas h)

theorem ofSchemas_grounded (h : Registry.ofSchemas d.schemas = .ok r) :
    Registry.ofSchemas d.grounded.schemas = .ok r.grounded := by
  have known := contains_eq_knows h
  obtain ⟨distinct, nodup, perm⟩ := Registry.ofSchemas_eq_ok_iff.1 h
  refine Registry.ofSchemas_eq_ok_iff.2 ⟨?_, ?_, ?_⟩
  · intro u hu
    obtain ⟨s, hs, rfl⟩ := List.mem_map.1 hu
    exact distinct s hs
  · have names : d.grounded.schemas.map (·.name) = d.schemas.map (·.name) := by
      show (d.schemas.map _).map _ = _
      rw [List.map_map]
      rfl
    rwa [names]
  · show (r.toList.map (Schema.grounded r.contains)).Perm (d.schemas.map (Schema.grounded d.knows))
    rw [known]
    exact perm.map _

theorem exists_normalize_grounded (h : d.normalize c = .ok m) :
    ∃ u, d.grounded.normalize c = .ok u ∧ u.operations = m.operations ∧
      u.hasEncodableParameters = m.hasEncodableParameters ∧
      u.hasFormParameters = m.hasFormParameters := by
  obtain ⟨r, F, ops, hr, hF, ho, rfl⟩ := normalize_eq_ok_iff.1 h
  obtain ⟨order, plan, _⟩ := Registry.normalize_eq_ok_iff.1 hF
  have plan' := Registry.dependencyOrder_grounded plan
  refine ⟨_, normalize_eq_ok_iff.2 ⟨r.grounded, _, ops, ofSchemas_grounded hr,
    Registry.normalize_eq_ok_iff.2 ⟨order, plan', rfl⟩, ho, rfl⟩, rfl, rfl, rfl⟩

theorem importsUnknown_finish (known : String → Bool) :
    ((s.normalize c R).finish c.naming as imports).ImportsUnknown c known n ↔
      s.ImportsUnknown c known n := by
  show _ ∧ (s.normalize c R).IsComposedFrom n ∧ _ ↔ _ ∧ _ ∧ _
  rw [Schema.isComposedFrom_normalize]
  rfl

theorem sameButUnknown_finish (hR : Registry.Settled c r R) (hT : Registry.Settled c r.grounded T)
    (sees : (s.grounded r.contains).SeesSame R T) (held : r.contains s.name = true)
    (as : List TagAssignment) (imports : String → List String) :
    ((s.normalize c R).finish c.naming as imports).SameButUnknown c r.contains
      (((s.grounded r.contains).normalize c T).finish c.naming as imports) := by
  have known := hR.contains_eq
  constructor
  case rest =>
    have same := hR.anchored_normalize hT sees
    have again := Schema.anchored_normalize c T (s.grounded r.contains)
    rw [hT.contains_grounded, Schema.grounded_grounded] at again
    have finish (t : Schema) : ((t.finish c.naming as imports).grounded r.contains).withoutImports =
        (t.anchored r.contains).retag as := rfl
    have finish' (u : Schema) : (u.finish c.naming as imports).withoutImports =
        u.withoutImports.retag as := rfl
    rw [finish, finish', same, again]
  case imports =>
    intro n
    have unknown := Schema.mem_imports_normalize_grounded (c := c) (r := R) (s := s) (n := n)
      (known.symm ▸ held)
    rw [known, sees.normalize] at unknown
    rw [importsUnknown_finish]
    rw [Schema.mem_imports_finish, Schema.mem_imports_finish, unknown, or_right_comm]
    rfl
  case modelImports =>
    simp only [List.forall_mem_cons, List.not_mem_nil, false_imp_iff, implies_true, and_true]
    exact ⟨rfl, rfl⟩

/-- Links that lead to no schema can be left out, except that components are imported unseen. -/
theorem normalize_grounded (h : d.normalize c = .ok m) : ∃ u, d.grounded.normalize c = .ok u ∧
    u.operations = m.operations ∧ u.hasEncodableParameters = m.hasEncodableParameters ∧
      u.hasFormParameters = m.hasFormParameters ∧
      List.Forall₂ (Schema.SameButUnknown c d.knows) m.schemas u.schemas := by
  obtain ⟨u, hu, operations, encodable, form⟩ := exists_normalize_grounded h
  refine ⟨u, hu, operations, encodable, form, ?_⟩
  obtain ⟨r, R, order, plan, out⟩ := exists_outcome_imported h
  obtain ⟨t, T, order', plan', out'⟩ := exists_outcome_imported hu
  obtain rfl : t = r.grounded :=
    Except.ok.inj (out'.admitted.symm.trans (ofSchemas_grounded out.admitted))
  obtain rfl : order = order' :=
    Except.ok.inj ((Registry.dependencyOrder_grounded plan).symm.trans plan')
  have schedule := Registry.schedule_of_dependencyOrder plan
  have related := out.settled.related_anchored out'.settled schedule
  have children (n : String) (hn : R.contains n = true) : R.children n = T.children n :=
    related.children_of_anchored (out.settled.contains_eq ▸ hn)
  have keeps := Schema.SameAnchored.keepsTags r.contains
  have assigned : R.assigned c order = T.assigned c order := by
    unfold Registry.assigned
    rw [funext (related.tagAssignments keeps children)]
  have imported : R.imported c order = T.imported c order := by
    unfold Registry.imported
    rw [funext (related.importedInTurn keeps children order)]
  rw [out.schemas, out'.schemas, assigned, imported, ← contains_eq_knows out.admitted]
  show List.Forall₂ _ _ ((r.toList.map (Schema.grounded r.contains)).map _)
  rw [List.map_map, List.forall₂_map_left_iff, List.forall₂_map_right_iff, List.forall₂_same]
  intro s hs
  have sees := out.settled.seesSame_grounded out'.settled (s := s) fun d _ =>
    out.settled.map_anchored_eq out'.settled schedule d
  exact sameButUnknown_finish out.settled out'.settled sees (out.contains (out.mem_iff.1 hs)) _ _

def strays : Document where
  schemas := [
    ((Schema.named "Cat").withParent "Animal").composedOf .oneOf ["Lion", "Null"],
    ((Schema.named "Dog").withProperties [.plain "bark" "bark" "string"]).composedOf .allOf
      ["Cat", "Wolf"]]

theorem exists_normalize_strays : ∃ m, strays.normalize {} = .ok m ∧
    (m.schema? "Cat").map (·.view.imports.toList) = some ["Lion"] := by
  obtain ⟨m, hm, shown⟩ := exists_normalize_of_any (d := strays) (c := {})
    (P := fun m => decide ((m.schema? "Cat").map (·.view.imports.toList) = some ["Lion"]))
    (by decide +kernel)
  exact ⟨m, hm, of_decide_eq_true shown⟩

theorem normalize_grounded_strays : ∃ m u, strays.normalize {} = .ok m ∧
    strays.grounded.normalize {} = .ok u ∧ u.operations = m.operations ∧
      List.Forall₂ (Schema.SameButUnknown {} strays.knows) m.schemas u.schemas := by
  obtain ⟨m, hm, _⟩ := exists_normalize_strays
  obtain ⟨u, hu, operations, _, _, same⟩ := normalize_grounded hm
  exact ⟨m, u, hm, hu, operations, same⟩

/-- Cats import lions, and without the link to them they import nothing. -/
theorem normalize_importsLion_strays : ∃ m u, strays.normalize {} = .ok m ∧
    strays.grounded.normalize {} = .ok u ∧
      (m.schema? "Cat").map (·.view.imports.toList) = some ["Lion"] ∧
      (u.schema? "Cat").map (·.view.imports.toList) = some [] := by
  obtain ⟨m, hm, lion⟩ := exists_normalize_strays
  obtain ⟨u, hu, nothing⟩ := exists_normalize_of_any (d := strays.grounded) (c := {})
    (P := fun u => decide ((u.schema? "Cat").map (·.view.imports.toList) = some []))
    (by decide +kernel)
  exact ⟨m, u, hm, hu, lion, of_decide_eq_true nothing⟩

end Document

end ApiModel
