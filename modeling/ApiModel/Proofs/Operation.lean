import Mathlib.Data.List.Forall2
import ApiModel.Operation

/-! Operations that are normalized twice. Whether an operation can be normalized, and under which
id, does not depend on the configuration, and what was filled in once is not filled in again. -/

namespace ApiModel

namespace Parameter

@[simp] theorem derivedIdentifier_identified (p : Parameter) :
    p.identified.derivedIdentifier = p.derivedIdentifier := by
  unfold identified derivedIdentifier
  by_cases h : p.identifier.isEmpty <;> simp [h]

@[simp] theorem identified_identified (p : Parameter) : p.identified.identified = p.identified := by
  show { p.identified with identifier := p.identified.derivedIdentifier } = _
  rw [derivedIdentifier_identified]
  rfl

end Parameter

namespace Operation

variable {c d : Config} {op o : Operation}

def ofParts (c : Config) (op : Operation) (parts : List PathTemplate.Part) : Operation where
  operationId := op.finalId
  method := op.method
  path := op.path
  parameters := op.identified
  responses := op.responses
  view := {
    groups := .ofList op.identified
    renderedPath := (PathTemplate.Expansion.ofParts c.pathDialect parts).rendered
    consumedParameters := (PathTemplate.Expansion.ofParts c.pathDialect parts).consumed
    success := Response.classify op.responses }

theorem normalize_eq (c : Config) (op : Operation) :
    op.normalize c = (PathTemplate.parts op.path op.identified).map (op.ofParts c) := by
  unfold normalize expansion PathTemplate.expand
  cases PathTemplate.parts op.path op.identified <;> rfl

theorem normalize_eq_ok_iff : op.normalize c = .ok o ↔
    ∃ parts, PathTemplate.parts op.path op.identified = .ok parts ∧ op.ofParts c parts = o := by
  rw [normalize_eq]
  cases PathTemplate.parts op.path op.identified <;> simp [Except.map]

theorem exists_normalize (h : op.normalize c = .ok o) (d : Config) :
    ∃ o', op.normalize d = .ok o' ∧ o'.operationId = o.operationId := by
  obtain ⟨parts, hp, rfl⟩ := normalize_eq_ok_iff.1 h
  exact ⟨op.ofParts d parts, normalize_eq_ok_iff.2 ⟨parts, hp, rfl⟩, rfl⟩

theorem normalize_of_normalize (h : op.normalize c = .ok o) (d : Config) :
    o.normalize d = op.normalize d := by
  obtain ⟨parts, _, rfl⟩ := normalize_eq_ok_iff.1 h
  have identified : (op.ofParts c parts).identified = op.identified := by
    show (op.parameters.map _).map _ = op.parameters.map _
    simp only [List.map_map, Function.comp_def, Parameter.identified_identified]
  have id : (op.ofParts c parts).finalId = op.finalId := by
    unfold finalId ofParts finalId
    by_cases h : op.operationId.isEmpty <;> simp [h]
  rw [normalize_eq, normalize_eq, identified]
  show (PathTemplate.parts op.path op.identified).map _ = _
  congr 1
  funext parts'
  simp only [ofParts] at id identified ⊢
  rw [id, identified]

theorem normalizeAll_go_cons (h : op.normalize c = .ok o) (ids : List String)
    (ops : List Operation) : normalizeAll.go c ids (op :: ops) =
      if ids.contains o.operationId then .error (.duplicateOperation o.operationId)
      else (normalizeAll.go c (o.operationId :: ids) ops).map (o :: ·) := by
  rw [normalizeAll.go, h]
  by_cases seen : ids.contains o.operationId = true
  · simp only [bind, Except.bind, seen, if_true]
    rfl
  · simp only [bind, Except.bind, seen]
    cases normalizeAll.go c (o.operationId :: ids) ops <;> rfl

theorem normalizeAll_go_eq_ok_iff {ids : List String} {ops out : List Operation} :
    normalizeAll.go c ids ops = .ok out ↔
      List.Forall₂ (fun op o => op.normalize c = .ok o) ops out ∧
        (out.map (·.operationId)).Nodup ∧ ∀ o ∈ out, o.operationId ∉ ids := by
  induction ops generalizing ids out with
  | nil =>
    rw [List.forall₂_nil_left_iff]
    constructor
    · intro h
      cases h
      exact ⟨rfl, .nil, fun _ h => (List.not_mem_nil h).elim⟩
    · rintro ⟨rfl, _⟩
      rfl
  | cons op ops ih =>
    cases hop : op.normalize c with
    | error failure =>
      rw [List.forall₂_cons_left_iff, normalizeAll.go, hop]
      simp [bind, Except.bind]
    | ok o =>
      rw [normalizeAll_go_cons hop, List.forall₂_cons_left_iff]
      constructor
      · intro h
        split at h
        · cases h
        next fresh =>
          cases rest : normalizeAll.go c (o.operationId :: ids) ops with
          | error failure => rw [rest] at h; cases h
          | ok out' =>
            rw [rest] at h
            cases h
            obtain ⟨each, nodup, new⟩ := ih.1 rest
            refine ⟨⟨o, out', hop, each, rfl⟩, List.nodup_cons.2 ⟨?_, nodup⟩, ?_⟩
            · intro mem
              obtain ⟨o', ho', eq⟩ := List.mem_map.1 mem
              exact new o' ho' (eq ▸ List.mem_cons_self)
            · intro o' ho'
              rcases List.mem_cons.1 ho' with rfl | ho'
              · simpa using fresh
              · exact fun old => new o' ho' (List.mem_cons_of_mem _ old)
      · rintro ⟨⟨o', out', eq, each, rfl⟩, nodup, new⟩
        rw [hop] at eq
        cases eq
        obtain ⟨fresh, nodup⟩ := List.nodup_cons.1 nodup
        have rest : normalizeAll.go c (o.operationId :: ids) ops = .ok out' := by
          refine ih.2 ⟨each, nodup, fun o' ho' old => ?_⟩
          rcases List.mem_cons.1 old with eq | old
          · exact fresh (List.mem_map.2 ⟨o', ho', eq⟩)
          · exact new o' (List.mem_cons_of_mem _ ho') old
        rw [rest, if_neg (by simpa using new o List.mem_cons_self)]
        rfl

theorem normalizeAll_eq_ok_iff {ops out : List Operation} : normalizeAll c ops = .ok out ↔
    List.Forall₂ (fun op o => op.normalize c = .ok o) ops out ∧
      (out.map (·.operationId)).Nodup := by
  rw [normalizeAll, normalizeAll_go_eq_ok_iff]
  simp

theorem normalizeAll_of_normalizeAll {ops out : List Operation} (h : normalizeAll c ops = .ok out)
    (d : Config) : ∃ out', normalizeAll d out = .ok out' ∧ normalizeAll d ops = .ok out' := by
  obtain ⟨each, nodup⟩ := normalizeAll_eq_ok_iff.1 h
  have key : ∃ out', List.Forall₂ (fun op o => op.normalize d = .ok o) ops out' ∧
      List.Forall₂ (fun op o => op.normalize d = .ok o) out out' ∧
      out'.map (·.operationId) = out.map (·.operationId) := by
    clear h nodup
    induction each with
    | nil => exact ⟨[], .nil, .nil, rfl⟩
    | cons head _ ih =>
      obtain ⟨out', authored, again, ids⟩ := ih
      obtain ⟨o', ho', id⟩ := exists_normalize head d
      refine ⟨o' :: out', .cons ho' authored, .cons ?_ again, ?_⟩
      · rw [normalize_of_normalize head, ho']
      · rw [List.map_cons, List.map_cons, id, ids]
  obtain ⟨out', authored, again, ids⟩ := key
  rw [← ids] at nodup
  exact ⟨out', normalizeAll_eq_ok_iff.2 ⟨again, nodup⟩, normalizeAll_eq_ok_iff.2 ⟨authored, nodup⟩⟩

end Operation

end ApiModel
