import ApiModel.Proofs.Registry.Reading

/-! Dropping `Null` alternatives. It touches the components and the nullability of a schema and
nothing that is derived, and doing it twice is doing it once. -/

namespace ApiModel

/-- Any component but an alternative that stands for the absent value. -/
def Component.isReal (k : Component) : Bool := !(k.isNull && k.isAlternative)

theorem filter_filter_isReal {p : Component → Bool} (h : ∀ k, p k = true → k.isReal = true)
    (l : List Component) : (l.filter Component.isReal).filter p = l.filter p := by
  rw [List.filter_filter]
  apply List.filter_congr
  intro k _
  cases hp : p k with
  | false => rfl
  | true => simpa using h k hp

namespace Schema

def cleared (s : Schema) : Schema := { s with view := {} }

/-- The authored part of a schema as normalization leaves it. -/
def intake (c : Config) (s : Schema) : Schema :=
  { s with composedFrom := keptComponents c s, isNullable := becomesNullable c s, view := {} }

/-- The authored part that the view is derived from. -/
def core (s : Schema) : Schema :=
  { s with composedFrom := s.composedFrom.filter Component.isReal, isNullable := false, view := {} }

def IsComposedFrom (s : Schema) (n : String) : Prop := ∃ k ∈ s.composedFrom, k.name = n ∧ n ≠ "Null"

variable {c d : Config} {r : Registry} {s t : Schema} {n : String}

@[simp] theorem name_normalize (c : Config) (r : Registry) (s : Schema) :
    (s.normalize c r).name = s.name := rfl

@[simp] theorem intake_cleared (c : Config) (s : Schema) : s.cleared.intake c = s.intake c := rfl

theorem keptComponents_eq (c : Config) (s : Schema) : keptComponents c s =
    if c.stripsNull then s.composedFrom.filter Component.isReal else s.composedFrom := rfl

theorem filter_keptComponents {p : Component → Bool} (h : ∀ k, p k = true → k.isReal = true)
    (c : Config) (s : Schema) : (keptComponents c s).filter p = s.composedFrom.filter p := by
  rw [keptComponents_eq]
  split
  · exact filter_filter_isReal h _
  · rfl

theorem isComposedFrom_normalize : (s.normalize c r).IsComposedFrom n ↔ s.IsComposedFrom n := by
  show (∃ k ∈ s.keptComponents c, k.name = n ∧ n ≠ "Null") ↔ _
  rw [keptComponents_eq]
  split
  case isFalse => rfl
  case isTrue =>
    constructor
    · rintro ⟨k, hk, name, real⟩
      exact ⟨k, List.mem_of_mem_filter hk, name, real⟩
    · rintro ⟨k, hk, rfl, real⟩
      have kept : k.isReal = true := by simp [Component.isReal, Component.isNull, real]
      exact ⟨k, List.mem_filter.2 ⟨hk, kept⟩, rfl, real⟩

@[simp] theorem core_cleared (s : Schema) : s.cleared.core = s.core := rfl

@[simp] theorem core_intake (c : Config) (s : Schema) : (s.intake c).core = s.core := by
  simp only [core, intake, filter_keptComponents (fun _ => id)]

@[simp] theorem core_normalize (c : Config) (r : Registry) (s : Schema) :
    (s.normalize c r).core = s.core := core_intake c s

theorem isReal_of_embeds (k : Component) (s : Schema)
    (h : (!k.isAlternative && k.name != s.name) = true) : k.isReal = true := by
  simp_all [Component.isReal]

@[simp] theorem embedded_core (s : Schema) : s.core.embedded = s.embedded :=
  filter_filter_isReal (fun k h => isReal_of_embeds k s h) _

@[simp] theorem alternatives_core (s : Schema) : s.core.alternatives = s.alternatives :=
  filter_filter_isReal (fun k h => by simp_all [Component.isReal]) _

@[simp] theorem dependencies_core (s : Schema) : s.core.dependencies = s.dependencies := by
  simp only [dependencies, embedded_core]
  rfl

@[simp] theorem outline_core (s : Schema) : s.core.outline = s.outline := by
  simp only [outline, embedded_core]
  rfl

theorem members_core (c : Config) (r : Registry) (s : Schema) :
    members c r s.core = members c r s := by
  have dropped : droppedNames r s.core = droppedNames r s := by
    simp only [droppedNames, alternatives_core]
    rfl
  have direct : directMembers r s.core = directMembers r s := by
    simp only [directMembers, candidates, readWriteCandidates, embeddedMembers, embedded_core]
    rfl
  simp only [members, visibleMembers, visibleCandidates, dropped, direct]
  rfl

theorem view_normalize_core (c : Config) (r : Registry) (s : Schema) :
    (s.core.normalize c r).view = (s.normalize c r).view := by
  have composed : s.core.composedFrom.filter (!·.isNull) = s.composedFrom.filter (!·.isNull) :=
    filter_filter_isReal (fun k h => by simp_all [Component.isReal]) _
  simp only [normalize, members_core, importsFor, composed]
  rfl

theorem view_normalize_of_core (h : s.core = t.core) (c : Config) (r : Registry) :
    (s.normalize c r).view = (t.normalize c r).view := by
  rw [← view_normalize_core, h, view_normalize_core]

theorem intake_of_nullAlternatives (s : Schema) (h : s.nullAlternatives c = []) :
    s.intake c = s.cleared := by
  have kept : s.keptComponents c = s.composedFrom := by
    unfold nullAlternatives at h
    unfold keptComponents
    split
    next strips =>
      rw [if_pos strips, List.filter_eq_nil_iff] at h
      refine List.filter_eq_self.2 fun k hk => ?_
      rw [Bool.not_eq_true']
      exact Bool.not_eq_true _ ▸ h k hk
    next => rfl
  simp only [intake, cleared, kept, becomesNullable, h, List.isEmpty_nil, Bool.not_true,
    Bool.or_false]

theorem intake_of_keeps (h : c.stripsNull = false) (s : Schema) : s.intake c = s.cleared := by
  apply intake_of_nullAlternatives
  rw [nullAlternatives, h, if_neg Bool.false_ne_true]

theorem intake_intake (h : d.stripsNull = true ∨ c.stripsNull = false) (s : Schema) :
    (s.intake c).intake d = s.intake d := by
  cases hc : c.stripsNull with
  | false => rw [intake_of_keeps hc, intake_cleared]
  | true =>
    have hd : d.stripsNull = true := h.resolve_right (by simp [hc])
    have none : (s.composedFrom.filter Component.isReal).filter
        (fun k => k.isNull && k.isAlternative) = [] := by
      simp [List.filter_filter, Component.isReal]
    have kept : (s.composedFrom.filter Component.isReal).filter Component.isReal =
        s.composedFrom.filter Component.isReal := filter_filter_isReal (fun _ => id) _
    simp only [intake, keptComponents_eq, becomesNullable, nullAlternatives, hc, hd, if_true, none,
      kept, List.isEmpty_nil, Bool.not_true, Bool.or_false]

end Schema

end ApiModel
