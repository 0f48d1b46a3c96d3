import ApiModel.Proofs.Document

/-! Normalizing a model again. Under any configuration a model stands for the document that it was
made of, except that `Null` alternatives once dropped do not come back. -/

namespace ApiModel

theorem Registry.SameCore.distinctNames {r t : Registry} (h : r.SameCore t)
    (distinct : ∀ s ∈ t.toList, Property.DistinctNames s.properties) :
    ∀ s ∈ r.toList, Property.DistinctNames s.properties := by
  intro s hs
  obtain ⟨u, hu, core⟩ := h.find? (Keyed.find?_of_mem hs)
  have same : s.core.properties = u.core.properties := congrArg Schema.properties core
  show Property.DistinctNames s.core.properties
  rw [same]
  exact distinct u (Keyed.find?_eq_some_iff.1 hu).1

/-- A model apart from what dropping `Null` alternatives changes. -/
def Model.withoutNullability (m : Model) : Model :=
  { m with schemas := m.schemas.map Schema.withoutNullability }

namespace Document

theorem normalize_toDocument {d : Document} {c₁ : Config} {m : Model} (h : d.normalize c₁ = .ok m)
    (c₂ : Config) : ∃ again direct,
      m.toDocument.normalize c₂ = .ok again ∧ d.normalize c₂ = .ok direct ∧
      (c₂.stripsNull = true ∨ c₁.stripsNull = false → again = direct) ∧
      again.withoutNullability = direct.withoutNullability := by
  obtain ⟨r, R, ops, hr, hR, ho, rfl⟩ := normalize_eq_ok_iff.1 h
  have core := Registry.sameCore_of_normalize hR
  have readmitted : Registry.ofSchemas R.toList = .ok R := by
    obtain ⟨distinct, _, perm⟩ := Registry.ofSchemas_eq_ok_iff.1 hr
    exact Registry.ofSchemas_toList
      (core.distinctNames fun s hs => distinct s (perm.mem_iff.1 hs))
  obtain ⟨ops', again, direct⟩ := Operation.normalizeAll_of_normalizeAll ho c₂
  obtain ⟨T, hT⟩ := Registry.exists_normalize hR c₂
  by_cases strips : c₂.stripsNull = true ∨ c₁.stripsNull = false
  · have same : R.normalize c₂ = r.normalize c₂ :=
      Registry.normalize_congr (Registry.sameIntake_of_normalize hR strips)
    refine ⟨_, _, normalize_eq_ok_iff.2 ⟨R, T, ops', readmitted, same.trans hT, again, rfl⟩,
      normalize_eq_ok_iff.2 ⟨r, T, ops', hr, hT, direct, rfl⟩, fun _ => rfl, rfl⟩
  · have classical : c₂.profile.isTaggedUnion = false := by
      simp_all [Config.stripsNull]
    obtain ⟨S, hS, schemas⟩ := core.symm.normalize_withoutNullability classical hT
    refine ⟨_, _, normalize_eq_ok_iff.2 ⟨R, S, ops', readmitted, hS, again, rfl⟩,
      normalize_eq_ok_iff.2 ⟨r, T, ops', hr, hT, direct, rfl⟩, fun h => absurd h strips, ?_⟩
    simp only [Model.withoutNullability, Model.ofParts, schemas]

theorem normalize_toDocument_zoo : ∃ m, zoo.normalize {} = .ok m ∧ ∃ again direct,
    m.toDocument.normalize { stripNullableVariants := false } = .ok again ∧
      zoo.normalize { stripNullableVariants := false } = .ok direct ∧
      again.withoutNullability = direct.withoutNullability := by
  obtain ⟨m, hm⟩ := exists_normalize_zoo {}
  obtain ⟨again, direct, hagain, hdirect, _, same⟩ :=
    normalize_toDocument hm { stripNullableVariants := false }
  exact ⟨m, hm, again, direct, hagain, hdirect, same⟩

end Document

end ApiModel
