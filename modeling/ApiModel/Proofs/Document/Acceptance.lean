import ApiModel.Proofs.Document
import ApiModel.Proofs.Operation.Admission

/-! Which documents normalize. What can be wrong with a document is met in one order: its schemas
one by one, then cycles among them, then its operations one by one. The first problem in this order
is the failure, whatever the configuration. -/

namespace ApiModel.Document

variable {c : Config} {d : Document} {r : Registry} {f : Failure}

def WaitsFor (d : Document) (n m : String) : Prop :=
  (∃ t ∈ d.schemas, t.name = m) ∧ ∃ s ∈ d.schemas, s.name = n ∧ s.TakesFrom m

def Acyclic (d : Document) : Prop := ∀ n, ¬ Relation.TransGen d.WaitsFor n n

structure Acceptable (d : Document) : Prop where
  schemas : Registry.Admits d.schemas
  acyclic : d.Acyclic
  operations : Operation.Admits d.operations

inductive FirstProblem (d : Document) : Failure → Prop
  | schema {f : Failure} (refused : Registry.Refuses d.schemas f) : FirstProblem d f
  | cycle {chain : List String} (schemas : Registry.Admits d.schemas)
      (cycle : SimpleCycle d.WaitsFor chain) : FirstProblem d (.cyclicInheritance chain)
  | operation {f : Failure} (schemas : Registry.Admits d.schemas) (acyclic : d.Acyclic)
      (refused : Operation.Refuses d.operations f) : FirstProblem d f

theorem waitsFor_of_ofSchemas (h : Registry.ofSchemas d.schemas = .ok r) :
    r.WaitsFor = d.WaitsFor := by
  obtain ⟨_, _, perm⟩ := Registry.ofSchemas_eq_ok_iff.1 h
  have mem (s : Schema) : s ∈ r.toList ↔ s ∈ d.schemas := perm.mem_iff
  funext n m
  simp only [Registry.WaitsFor, WaitsFor, Keyed.contains_iff, Keyed.find?_eq_some_iff, mem,
    and_assoc]

theorem acyclic_iff_of_ofSchemas (h : Registry.ofSchemas d.schemas = .ok r) :
    r.Acyclic ↔ d.Acyclic := by
  unfold Registry.Acyclic Acyclic
  rw [waitsFor_of_ofSchemas h]

theorem of?_normalize_of_error (h : Registry.ofSchemas d.schemas = .error f) (c : Config) :
    Failure.of? (d.normalize c) = some f := by
  rw [normalize, h]
  rfl

theorem of?_normalize_of_ok (h : Registry.ofSchemas d.schemas = .ok r) (c : Config) :
    Failure.of? (d.normalize c) = (Failure.of? r.dependencyOrder).or
      (Failure.of? (Operation.normalizeAll c d.operations)) := by
  rw [normalize, h]
  show Failure.of? (r.normalize c >>= _) = _
  unfold Registry.normalize
  cases r.dependencyOrder with
  | error f => rfl
  | ok order =>
    show Failure.of? (Operation.normalizeAll c d.operations >>= _) = _
    cases Operation.normalizeAll c d.operations <;> rfl

theorem exists_normalize_iff : (∃ m, d.normalize c = .ok m) ↔ d.Acceptable := by
  rw [← Failure.of?_eq_none_iff]
  cases h : Registry.ofSchemas d.schemas with
  | error f =>
    rw [of?_normalize_of_error h]
    refine iff_of_false (Option.some_ne_none f) fun acceptable => ?_
    obtain ⟨r, hr⟩ := Registry.exists_ofSchemas_iff.2 acceptable.schemas
    rw [h] at hr
    cases hr
  | ok r =>
    have schemas : Registry.Admits d.schemas := Registry.exists_ofSchemas_iff.1 ⟨r, h⟩
    rw [of?_normalize_of_ok h, Option.or_eq_none_iff, Failure.of?_eq_none_iff,
      Registry.exists_dependencyOrder_iff, acyclic_iff_of_ofSchemas h, Failure.of?_eq_none_iff,
      (Operation.normalizeAll_judged c d.operations).1]
    exact ⟨fun ⟨acyclic, operations⟩ => ⟨schemas, acyclic, operations⟩,
      fun acceptable => ⟨acceptable.acyclic, acceptable.operations⟩⟩

theorem firstProblem_of_normalize (hf : d.normalize c = .error f) : d.FirstProblem f := by
  rw [← Failure.of?_eq_some_iff] at hf
  cases h : Registry.ofSchemas d.schemas with
  | error g =>
    rw [of?_normalize_of_error h, Option.some_inj] at hf
    exact .schema (hf ▸ Registry.ofSchemas_eq_error_iff.1 h)
  | ok r =>
    have schemas : Registry.Admits d.schemas := Registry.exists_ofSchemas_iff.1 ⟨r, h⟩
    rw [of?_normalize_of_ok h, Option.or_eq_some_iff, Failure.of?_eq_some_iff,
      Failure.of?_eq_none_iff, Failure.of?_eq_some_iff] at hf
    rcases hf with stuck | ⟨ordered, refused⟩
    · obtain ⟨chain, rfl, cycle⟩ := Registry.simpleCycle_of_dependencyOrder stuck
      exact .cycle schemas (waitsFor_of_ofSchemas h ▸ cycle)
    · have acyclic : d.Acyclic :=
        (acyclic_iff_of_ofSchemas h).1 (Registry.exists_dependencyOrder_iff.1 ordered)
      exact .operation schemas acyclic (((Operation.normalizeAll_judged c _).2 f).1 refused)

theorem FirstProblem.normalize_eq (h : d.FirstProblem f) (c : Config) :
    d.normalize c = .error f ∨ ∃ chain chain', f = .cyclicInheritance chain ∧
      d.normalize c = .error (.cyclicInheritance chain') := by
  simp only [← Failure.of?_eq_some_iff]
  cases h with
  | schema refused =>
    exact .inl (of?_normalize_of_error (Registry.ofSchemas_eq_error_iff.2 refused) c)
  | @cycle chain schemas cycle =>
    obtain ⟨r, hr⟩ := Registry.exists_ofSchemas_iff.2 schemas
    have cyclic : ¬ r.Acyclic := by
      obtain ⟨n, again⟩ := cycle.exists_transGen
      rw [acyclic_iff_of_ofSchemas hr]
      exact fun acyclic => acyclic n again
    obtain ⟨chain', hc⟩ := Registry.exists_cyclicInheritance_iff.2 cyclic
    refine .inr ⟨chain, chain', rfl, ?_⟩
    rw [of?_normalize_of_ok hr, hc]
    rfl
  | operation schemas acyclic refused =>
    obtain ⟨r, hr⟩ := Registry.exists_ofSchemas_iff.2 schemas
    obtain ⟨order, plan⟩ :=
      Registry.exists_dependencyOrder_iff.2 ((acyclic_iff_of_ofSchemas hr).2 acyclic)
    refine .inl ?_
    rw [of?_normalize_of_ok hr, plan, refused.normalizeAll_eq c]
    rfl

theorem of?_normalize_eq (d : Document) (c c' : Config) :
    Failure.of? (d.normalize c) = Failure.of? (d.normalize c') := by
  cases h : Registry.ofSchemas d.schemas with
  | error f => rw [of?_normalize_of_error h, of?_normalize_of_error h]
  | ok r =>
    have operations : Failure.of? (Operation.normalizeAll c d.operations) =
        Failure.of? (Operation.normalizeAll c' d.operations) := by
      apply Option.ext
      intro f
      simp only [Failure.of?_eq_some_iff, (Operation.normalizeAll_judged _ _).2]
    rw [of?_normalize_of_ok h, of?_normalize_of_ok h, operations]

/-- A document normalizes unless something is wrong with it, and then its first problem is told,
under every configuration the same. -/
theorem normalize_acceptance (d : Document) (c : Config) :
    ((∃ m, d.normalize c = .ok m) ↔ d.Acceptable) ∧
      (∀ f, d.normalize c = .error f → d.FirstProblem f) ∧
      (∀ f, d.FirstProblem f → d.normalize c = .error f ∨ ∃ chain chain',
        f = .cyclicInheritance chain ∧ d.normalize c = .error (.cyclicInheritance chain')) ∧
      ∀ c', Failure.of? (d.normalize c') = Failure.of? (d.normalize c) :=
  ⟨exists_normalize_iff, fun _ => firstProblem_of_normalize, fun _ h => h.normalize_eq c,
    fun c' => of?_normalize_eq d c' c⟩

/-- Its first schema waits for itself, its second one repeats the name of the first and a name of its
own properties, and the path of its operation has no end to its placeholder. -/
def botched : Document where
  schemas := [
    (Schema.named "Pet").withParent "Pet",
    (Schema.named "Pet").withProperties [
      .plain "id" "petId" "string", .plain "name" "name" "string", .plain "id" "id" "string"]]
  operations := [.plain "" .get "/pets/\x7bpetId"]

theorem normalize_acceptance_botched :
    botched.normalize {} = .error (.nameCollision "Pet" "id" "petId" "id") ∧
      botched.FirstProblem (.nameCollision "Pet" "id" "petId" "id") ∧
      ¬ botched.Acceptable ∧
      (botched.normalize { profile := .taggedUnion } =
        .error (.nameCollision "Pet" "id" "petId" "id")) := by
  have told : botched.normalize {} = .error (.nameCollision "Pet" "id" "petId" "id") :=
    Failure.of?_eq_some_iff.1 (by decide +kernel)
  obtain ⟨accepted, first, _, same⟩ := normalize_acceptance botched {}
  refine ⟨told, first _ told, ?_, ?_⟩
  · rw [← accepted, told]
    rintro ⟨m, hm⟩
    cases hm
  · rw [← Failure.of?_eq_some_iff, same, told]
    rfl

end ApiModel.Document
