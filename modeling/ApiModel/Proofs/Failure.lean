import Mathlib.Data.List.Forall2
import ApiModel.Failure

/-! Runs that give a result or a failure, and the failure that they give. -/

namespace ApiModel

namespace Failure

variable {α β : Type}

def of? : Except Failure α → Option Failure
  | .error f => some f
  | .ok _ => none

theorem of?_eq_some_iff {x : Except Failure α} {f : Failure} : of? x = some f ↔ x = .error f := by
  cases x <;> simp [of?]

theorem of?_eq_none_iff {x : Except Failure α} : of? x = none ↔ ∃ a, x = .ok a := by
  cases x <;> simp [of?]

theorem of?_map (g : α → β) (x : Except Failure α) : of? (x.map g) = of? x := by
  cases x <;> rfl

theorem of?_mapM (g : α → Except Failure β) (l : List α) :
    of? (l.mapM g) = l.findSome? fun a => of? (g a) := by
  induction l with
  | nil => rfl
  | cons a l ih =>
    rw [List.mapM_cons, List.findSome?_cons, ← ih]
    cases g a with
    | error f => rfl
    | ok b => cases l.mapM g <;> rfl

theorem mapM_eq_ok_iff {g : α → Except Failure β} {l : List α} {m : List β} :
    l.mapM g = .ok m ↔ List.Forall₂ (fun a b => g a = .ok b) l m := by
  induction l generalizing m with
  | nil =>
    rw [List.mapM_nil, List.forall₂_nil_left_iff]
    exact ⟨fun h => (Except.ok.inj h).symm, fun h => h ▸ rfl⟩
  | cons a l ih =>
    rw [List.mapM_cons, List.forall₂_cons_left_iff]
    cases ha : g a with
    | error f =>
      constructor
      · intro h
        cases h
      · rintro ⟨b, _, hb, _⟩
        cases hb
    | ok b =>
      constructor
      · intro h
        cases hl : l.mapM g with
        | error f => rw [hl] at h; cases h
        | ok bs =>
          rw [hl] at h
          cases h
          exact ⟨b, bs, rfl, ih.1 hl, rfl⟩
      · rintro ⟨_, bs, hb, each, rfl⟩
        cases hb
        rw [ih.2 each]
        rfl

theorem mapM_map {γ : Type} (f : β → γ) (g : α → Except Failure β) (l : List α) :
    l.mapM (fun a => (g a).map f) = (l.mapM g).map (List.map f) := by
  induction l with
  | nil => rfl
  | cons a l ih =>
    rw [List.mapM_cons, List.mapM_cons, ih]
    cases g a with
    | error f => rfl
    | ok b => cases l.mapM g <;> rfl

/-- A run that goes by causes of failure, one of which stands wherever not all is fine, fails for
no other. -/
theorem judged {x : Except Failure α} {Fine : Prop} {Cause : Failure → Prop}
    (total : Fine ∨ ∃ f, Cause f) (fine : Fine → ∃ a, x = .ok a)
    (cause : ∀ f, Cause f → x = .error f) :
    ((∃ a, x = .ok a) ↔ Fine) ∧ ∀ f, x = .error f ↔ Cause f := by
  rcases total with holds | ⟨g, hg⟩
  · obtain ⟨a, rfl⟩ := fine holds
    refine ⟨iff_of_true ⟨a, rfl⟩ holds, fun f => ⟨fun h => ?_, cause f⟩⟩
    cases h
  · have told : x = .error g := cause g hg
    constructor
    · refine ⟨fun ⟨a, ha⟩ => ?_, fine⟩
      rw [ha] at told
      cases told
    · refine fun f => ⟨fun h => ?_, cause f⟩
      rw [told] at h
      exact Except.error.inj h ▸ hg

end Failure

end ApiModel
