import ApiModel.Proofs.Registry.Admission
import ApiModel.Proofs.Registry.Renormalization

/-! Histories of a registry. Whatever was done with a registry before, a run over it gives what a
run over a new registry gives that holds the same schemas with nothing derived, unless an earlier
run dropped `Null` alternatives that this one would keep. -/

namespace ApiModel

inductive Registry.Step
  | insert (s : Schema)
  | load (schemas : List Schema)
  | normalize (c : Config)
  | assignTags (c : Config) (order : List String)

namespace Registry

namespace Step

def apply (r : Registry) : Step → Except Failure Registry
  | insert s => r.insert s
  | load schemas => ofSchemas schemas
  | normalize c => r.normalize c
  | assignTags c order => .ok (r.assignTags c order)

def after (r : Registry) (step : Step) : Registry := (step.apply r).toOption.getD r

/-- The schemas that went in, when those in `held` had before. -/
def admitted (r : Registry) (held : List Schema) (step : Step) : List Schema :=
  match step, step.apply r with
  | insert s, .ok _ => held ++ [s]
  | load schemas, .ok _ => schemas
  | _, _ => held

theorem after_of_error {r : Registry} {step : Step} {f : Failure} (h : step.apply r = .error f)
    (held : List Schema) : step.after r = r ∧ step.admitted r held = held := by
  constructor
  · rw [after, h]
    rfl
  · simp only [admitted, h]

theorem after_of_ok {r t : Registry} {step : Step} (h : step.apply r = .ok t) :
    step.after r = t := by
  rw [after, h]
  rfl

/-- The step is a run that drops some `Null` alternative. -/
def DropsNull (r : Registry) : Step → Prop
  | normalize c => (r.normalize c).isOk = true ∧ ∃ s ∈ r.toList, s.nullAlternatives c ≠ []
  | _ => False

end Step

def run (r : Registry) : List Step → Registry
  | [] => r
  | step :: steps => run (step.after r) steps

def admitted (r : Registry) (held : List Schema) : List Step → List Schema
  | [] => held
  | step :: steps => admitted (step.after r) (step.admitted r held) steps

def KeepsNull (r : Registry) : List Step → Prop
  | [] => True
  | step :: steps => ¬ step.DropsNull r ∧ KeepsNull (step.after r) steps

instance (r : Registry) : (step : Step) → Decidable (step.DropsNull r)
  | .insert _ => .isFalse id
  | .load _ => .isFalse id
  | .normalize c =>
    inferInstanceAs (Decidable (_ ∧ ∃ s ∈ r.toList, s.nullAlternatives c ≠ []))
  | .assignTags _ _ => .isFalse id

instance keepsNullDecidable : (r : Registry) → (steps : List Step) → Decidable (KeepsNull r steps)
  | _, [] => .isTrue trivial
  | r, step :: steps =>
    have := keepsNullDecidable (step.after r) steps
    inferInstanceAs (Decidable (¬ step.DropsNull r ∧ KeepsNull (step.after r) steps))

/-- The registry is what a new one with the schemas in `held` is to a run under `c`. -/
def Represents (c : Config) (r : Registry) (held : List Schema) : Prop :=
  ∃ t, ofSchemas (held.map Schema.cleared) = .ok t ∧ SameIntake c r t

variable {c d : Config} {r t : Registry} {held : List Schema}

theorem sameIntake_of_cleared
    (h : ∀ n, (r.find? n).map Schema.cleared = (t.find? n).map Schema.cleared) (c : Config) :
    SameIntake c r t := by
  intro n
  have := congrArg (Option.map (Schema.intake c)) (h n)
  simpa only [Option.map_map, Function.comp_def, Schema.intake_cleared] using this

theorem SameIntake.trans {u : Registry} (rt : SameIntake c r t) (tu : SameIntake c t u) :
    SameIntake c r u := fun n => (rt n).trans (tu n)

theorem Represents.of_sameIntake (h : Represents c t held) (rt : SameIntake c r t) :
    Represents c r held := by
  obtain ⟨u, hu, same⟩ := h
  exact ⟨u, hu, rt.trans same⟩

theorem Represents.insert (h : Represents c r held) {s : Schema} (hs : r.insert s = .ok t) :
    Represents c t (held ++ [s]) := by
  obtain ⟨distinct, new, rfl⟩ := insert_eq_ok_iff.1 hs
  obtain ⟨u, hu, same⟩ := h
  have fits : u.insert s.cleared = .ok (u.put s.cleared) :=
    insert_eq_ok_iff.2 ⟨distinct, (same.sameCore.contains s.name).symm.trans new, rfl⟩
  refine ⟨u.put s.cleared, ?_, fun n => ?_⟩
  · rw [ofSchemas] at hu ⊢
    rw [List.map_append, List.foldlM_append, hu]
    show (u.insert s.cleared >>= fun v => .ok v) = _
    rw [fits]
    rfl
  · rw [Keyed.find?_put, Keyed.find?_put]
    show Option.map _ (if s.name = n then _ else _) = Option.map _ (if s.name = n then _ else _)
    split
    · rfl
    · exact same n

theorem represents_of_ofSchemas {schemas : List Schema} (h : ofSchemas schemas = .ok r)
    (c : Config) : Represents c r schemas := by
  obtain ⟨distinct, nodup, perm⟩ := ofSchemas_eq_ok_iff.1 h
  have name (s : Schema) : s.cleared.name = s.name := rfl
  refine ⟨r.map Schema.cleared name, ofSchemas_eq_ok_iff.2 ⟨?_, ?_, ?_⟩, fun n => ?_⟩
  · intro s hs
    obtain ⟨u, hu, rfl⟩ := List.mem_map.1 hs
    exact distinct u hu
  · rwa [List.map_map]
  · exact perm.map _
  · rw [Keyed.find?_map, Option.map_map]
    rfl

theorem sameIntake_of_normalize_of_keeps (h : r.normalize d = .ok t)
    (keeps : ∀ s ∈ r.toList, s.nullAlternatives d = []) (c : Config) : SameIntake c t r := by
  apply sameIntake_of_cleared
  intro n
  rw [cleared_of_normalize h]
  apply Option.map_congr
  intro s hs
  exact s.intake_of_nullAlternatives (keeps s (Keyed.find?_eq_some_iff.1 hs).1)

theorem Represents.after (h : Represents c r held) {step : Step}
    (keeps : c.stripsNull = true ∨ ¬ step.DropsNull r) :
    Represents c (step.after r) (step.admitted r held) := by
  cases hs : step.apply r with
  | error failure =>
    obtain ⟨stays, admits⟩ := Step.after_of_error hs held
    rwa [stays, admits]
  | ok t =>
    rw [Step.after_of_ok hs]
    cases step with
    | insert s =>
      simp only [Step.admitted, hs]
      exact h.insert hs
    | load schemas =>
      simp only [Step.admitted, hs]
      exact represents_of_ofSchemas hs c
    | normalize d =>
      refine h.of_sameIntake ?_
      -- Either the last run drops what an earlier one dropped, or that one had nothing to drop.
      rcases keeps with strips | keeps
      · exact sameIntake_of_normalize hs (.inl strips)
      · refine sameIntake_of_normalize_of_keeps hs (fun s mem => ?_) c
        by_contra drops
        exact keeps ⟨by rw [Step.apply] at hs; rw [hs]; rfl, s, mem, drops⟩
    | assignTags d order =>
      cases hs
      exact h.of_sameIntake (sameIntake_of_cleared (cleared_assignTags d r order) c)

theorem Represents.run (h : Represents c r held) {steps : List Step}
    (keeps : c.stripsNull = true ∨ KeepsNull r steps) :
    Represents c (run r steps) (admitted r held steps) := by
  induction steps generalizing r held with
  | nil => exact h
  | cons step steps ih =>
    exact ih (h.after (keeps.imp_right And.left)) (keeps.imp_right And.right)

theorem normalize_run {c : Config} {steps : List Step}
    (keeps : c.stripsNull = true ∨ KeepsNull ∅ steps) :
    ∃ t, ofSchemas ((admitted ∅ [] steps).map Schema.cleared) = .ok t ∧
      (run ∅ steps).normalize c = t.normalize c := by
  have start : Represents c ∅ [] := ⟨∅, rfl, fun _ => rfl⟩
  obtain ⟨t, ht, same⟩ := start.run keeps
  exact ⟨t, ht, normalize_congr same⟩

def petHistory : List Step :=
  let union : Config := { profile := .taggedUnion }
  let pet := (Schema.named "Pet").withDiscriminator "kind" [("dog", "Dog")]
  let dog := ((Schema.named "Dog").withParent "Pet").withProperties [.plain "kind" "kind" "string"]
  [.insert dog, .normalize union, .insert pet, .normalize union, .assignTags union ["Pet", "Cat"],
    .insert { dog with view := { base := some "Cat" } }, .normalize {}]

theorem normalize_run_petHistory :
    KeepsNull ∅ petHistory ∧ ∃ t,
      ofSchemas ((admitted ∅ [] petHistory).map Schema.cleared) = .ok t ∧
      (run ∅ petHistory).normalize { stripNullableVariants := false } =
        t.normalize { stripNullableVariants := false } := by
  have keeps : KeepsNull ∅ petHistory := by decide +kernel
  exact ⟨keeps, normalize_run (.inr keeps)⟩

end Registry

end ApiModel
