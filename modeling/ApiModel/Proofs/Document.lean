import ApiModel.Document
import ApiModel.Proofs.Operation
import ApiModel.Proofs.Registry.Admission
import ApiModel.Proofs.Registry.Renormalization

/-! Documents that normalize: the three stages that such a run goes through. The configuration has
no part in whether a run succeeds. -/

namespace ApiModel.Document

variable {c : Config} {d : Document} {m : Model}

theorem normalize_eq_ok_iff : d.normalize c = .ok m ↔ ∃ r R ops,
    Registry.ofSchemas d.schemas = .ok r ∧ r.normalize c = .ok R ∧
      Operation.normalizeAll c d.operations = .ok ops ∧ .ofParts R.toList ops = m := by
  unfold normalize
  constructor
  · intro h
    cases hr : Registry.ofSchemas d.schemas with
    | error failure => rw [hr] at h; cases h
    | ok r =>
      cases hR : r.normalize c with
      | error failure => rw [hr] at h; simp [bind, Except.bind, hR] at h
      | ok R =>
        cases ho : Operation.normalizeAll c d.operations with
        | error failure => rw [hr] at h; simp [bind, Except.bind, hR, ho] at h
        | ok ops =>
          rw [hr] at h
          simp only [bind, Except.bind, hR, ho] at h
          exact ⟨r, R, ops, rfl, hR, rfl, Except.ok.inj h⟩
  · rintro ⟨r, R, ops, hr, hR, ho, rfl⟩
    rw [hr]
    simp only [bind, Except.bind, hR, ho]
    rfl

theorem exists_run (h : d.normalize c = .ok m) : ∃ r order,
    Registry.ofSchemas d.schemas = .ok r ∧ r.dependencyOrder = .ok order ∧
      ∀ c : Config, ∃ ops, d.normalize c = .ok (.ofParts (Registry.assignModelImports c.naming
        ((r.normalizeEach c order).assignTags c order)).toList ops) := by
  obtain ⟨r, R, ops, hr, hR, ho, _⟩ := normalize_eq_ok_iff.1 h
  obtain ⟨order, plan, _⟩ := Registry.normalize_eq_ok_iff.1 hR
  refine ⟨r, order, hr, plan, fun c' => ?_⟩
  obtain ⟨ops', _, ho'⟩ := Operation.normalizeAll_of_normalizeAll ho c'
  exact ⟨ops', normalize_eq_ok_iff.2
    ⟨r, _, ops', hr, Registry.normalize_eq_ok_iff.2 ⟨order, plan, rfl⟩, ho', rfl⟩⟩

theorem exists_normalize (h : d.normalize c = .ok m) (c' : Config) :
    ∃ m', d.normalize c' = .ok m' := by
  obtain ⟨_, _, _, _, runs⟩ := exists_run h
  obtain ⟨_, hc'⟩ := runs c'
  exact ⟨_, hc'⟩

theorem exists_normalize_of_any {P : Model → Bool} (h : (d.normalize c).toOption.any P = true) :
    ∃ m, d.normalize c = .ok m ∧ P m = true := by
  cases hm : d.normalize c with
  | error failure =>
    rw [hm] at h
    cases h
  | ok m =>
    rw [hm] at h
    exact ⟨m, rfl, h⟩

/-- A base with two subtypes, a schema that embeds one of them, one that may be absent, and an
operation with a parameter in its path. -/
def zoo : Document where
  schemas := [
    ((Schema.named "Pet").withProperties [
      (Property.plain "kind" "kind" "string").required,
      (Property.plain "name" "name" "string").withDefault "Rex",
      Property.plain "owner" "owner" "Person" |>.referencing "Person"]).withDiscriminator "kind"
        [("dog", "Dog")],
    ((Schema.named "Dog").withParent "Pet").withProperties [
      (Property.plain "kind" "kind" "string").required,
      (Property.plain "bark" "bark" "string").nullable],
    ((Schema.named "Cat").withParent "Pet").withProperties [
      (Property.plain "id" "id" "string").readOnly],
    ((Schema.named "Kennel").withProperties [Property.plain "city" "city" "string"]).composedOf
      .allOf ["Dog"],
    (Schema.named "MaybePet").composedOf .oneOf ["Pet", "Null"]]
  operations := [
    { Operation.plain "" .get "/pets/{petId}" with
      parameters := [.plain "petId" .path "string"] }]

theorem exists_normalize_zoo (c : Config) : ∃ m, zoo.normalize c = .ok m := by
  obtain ⟨m, h, _⟩ := exists_normalize_of_any (d := zoo) (c := {}) (P := fun _ => true)
    (by decide +kernel)
  exact exists_normalize h c

end ApiModel.Document
