import ApiModel.Proofs.Keyed
import ApiModel.Proofs.Operation
import ApiModel.Proofs.PathTemplate

/-! Which operations normalize together: those whose paths expand and whose ids are distinct. If
that does not hold of a list, the failure is that of the first operation up to which it does not.
The configuration has no part in either. -/

namespace ApiModel.Operation

open Parameter (Declares)

variable {c : Config} {op o : Operation} {ops before : List Operation} {f : Failure}

def PathExpands (op : Operation) : Prop :=
  PathTemplate.Expands (Declares op.parameters) op.path.toList

def PathFails (op : Operation) (f : Failure) : Prop :=
  PathTemplate.FailsAt op.path (Declares op.parameters) op.path.toList f

theorem parts_judged (op : Operation) :
    ((∃ found, PathTemplate.parts op.path op.identified = .ok found) ↔ op.PathExpands) ∧
      ∀ f, PathTemplate.parts op.path op.identified = .error f ↔ op.PathFails f := by
  have declares : Declares op.identified = Declares op.parameters :=
    Parameter.declares_map_identified op.parameters
  rw [PathExpands, ← declares]
  simp only [PathFails, ← declares]
  exact PathTemplate.parts_judged op.path op.identified

theorem exists_normalize_iff : (∃ o, op.normalize c = .ok o) ↔ op.PathExpands := by
  rw [← op.parts_judged.1, normalize_eq]
  cases PathTemplate.parts op.path op.identified <;> simp [Except.map]

theorem normalize_eq_error_iff : op.normalize c = .error f ↔ op.PathFails f := by
  rw [← op.parts_judged.2, normalize_eq]
  cases PathTemplate.parts op.path op.identified <;> simp [Except.map]

theorem operationId_of_normalize (h : op.normalize c = .ok o) : o.operationId = op.finalId := by
  obtain ⟨parts, _, rfl⟩ := normalize_eq_ok_iff.1 h
  rfl

structure Admits (ops : List Operation) : Prop where
  distinctIds : (ops.map finalId).Nodup
  pathsExpand : ∀ op ∈ ops, op.PathExpands

/-- What is wrong with the first operation that cannot stand after those before it. -/
inductive Refuses (ops : List Operation) : Failure → Prop
  | path {before after : List Operation} {op : Operation} {f : Failure}
      (split : ops = before ++ op :: after) (admitted : Admits before) (fails : op.PathFails f) :
      Refuses ops f
  | duplicate {before after : List Operation} {op : Operation}
      (split : ops = before ++ op :: after) (admitted : Admits before) (expands : op.PathExpands)
      (known : ∃ o ∈ before, o.finalId = op.finalId) :
      Refuses ops (.duplicateOperation op.finalId)

theorem exists_forall₂_normalize (c : Config) (h : ∀ op ∈ ops, op.PathExpands) :
    ∃ out, List.Forall₂ (fun op o => op.normalize c = .ok o) ops out ∧
      out.map (·.operationId) = ops.map finalId := by
  induction ops with
  | nil => exact ⟨[], .nil, rfl⟩
  | cons op ops ih =>
    obtain ⟨expands, each⟩ := List.forall_mem_cons.1 h
    obtain ⟨o, ho⟩ := exists_normalize_iff.2 expands
    obtain ⟨out, forall₂, ids⟩ := ih each
    refine ⟨o :: out, .cons ho forall₂, ?_⟩
    rw [List.map_cons, List.map_cons, operationId_of_normalize ho, ids]

theorem exists_normalizeAll_of_admits (c : Config) (h : Admits ops) :
    ∃ out, normalizeAll c ops = .ok out := by
  obtain ⟨out, each, ids⟩ := exists_forall₂_normalize c h.pathsExpand
  exact ⟨out, normalizeAll_eq_ok_iff.2 ⟨each, ids ▸ h.distinctIds⟩⟩

theorem of?_normalizeAll_go_append {ids : List String} (h : Admits before)
    (fresh : ∀ op ∈ before, op.finalId ∉ ids) (rest : List Operation) :
    Failure.of? (normalizeAll.go c ids (before ++ rest)) =
      Failure.of? (normalizeAll.go c ((before.map finalId).reverse ++ ids) rest) := by
  induction before generalizing ids with
  | nil => rfl
  | cons op before ih =>
    obtain ⟨expands, paths⟩ := List.forall_mem_cons.1 h.pathsExpand
    obtain ⟨first, distinct⟩ := List.nodup_cons.1 h.distinctIds
    obtain ⟨new, fresh⟩ := List.forall_mem_cons.1 fresh
    obtain ⟨o, ho⟩ := exists_normalize_iff.2 expands
    have id := operationId_of_normalize ho
    have unseen : ∀ p ∈ before, p.finalId ∉ op.finalId :: ids := by
      intro p hp old
      rcases List.mem_cons.1 old with same | old
      · exact first (List.mem_map.2 ⟨p, hp, same⟩)
      · exact fresh p hp old
    rw [List.cons_append, normalizeAll_go_cons ho, id, if_neg (by simpa using new),
      Failure.of?_map, ih ⟨distinct, paths⟩ unseen]
    simp

theorem of?_normalizeAll_append (h : Admits before) (rest : List Operation) :
    Failure.of? (normalizeAll c (before ++ rest)) =
      Failure.of? (normalizeAll.go c (before.map finalId).reverse rest) := by
  have passed : Failure.of? (normalizeAll.go c [] (before ++ rest)) = _ :=
    of?_normalizeAll_go_append h (fun _ _ => List.not_mem_nil) rest
  rwa [List.append_nil] at passed

theorem Refuses.normalizeAll_eq (h : Refuses ops f) (c : Config) :
    normalizeAll c ops = .error f := by
  rw [← Failure.of?_eq_some_iff]
  cases h with
  | @path before after op _ split admitted fails =>
    rw [split, of?_normalizeAll_append admitted, normalizeAll.go, normalize_eq_error_iff.2 fails]
    rfl
  | @duplicate before after op split admitted expands known =>
    obtain ⟨o, ho⟩ := exists_normalize_iff.2 expands
    have seen : (before.map finalId).reverse.contains o.operationId = true := by
      rw [operationId_of_normalize ho]
      simpa using known
    rw [split, of?_normalizeAll_append admitted, normalizeAll_go_cons ho, if_pos seen,
      operationId_of_normalize ho]
    rfl

theorem exists_refuses (h : ¬ Admits ops) : ∃ f, Refuses ops f := by
  obtain ⟨before, op, after, split, admitted, fails⟩ :=
    exists_first_failing (P := Admits) ⟨List.nodup_nil, List.forall_mem_nil _⟩ h
  cases bound : op.normalize {} with
  | error f => exact ⟨f, .path split admitted (normalize_eq_error_iff.1 bound)⟩
  | ok o =>
    have expands : op.PathExpands := exists_normalize_iff.1 ⟨o, bound⟩
    by_cases known : ∃ o ∈ before, o.finalId = op.finalId
    · exact ⟨_, .duplicate split admitted expands known⟩
    · refine absurd ⟨nodup_map_concat.2 ⟨admitted.distinctIds, ?_⟩, ?_⟩ fails
      · exact fun o ho id => known ⟨o, ho, id⟩
      · intro o ho
        rcases List.mem_append.1 ho with ho | ho
        · exact admitted.pathsExpand o ho
        · exact List.mem_singleton.1 ho ▸ expands

theorem normalizeAll_judged (c : Config) (ops : List Operation) :
    ((∃ out, normalizeAll c ops = .ok out) ↔ Admits ops) ∧
      ∀ f, normalizeAll c ops = .error f ↔ Refuses ops f := by
  have total : Admits ops ∨ ∃ f, Refuses ops f := or_iff_not_imp_left.2 exists_refuses
  exact Failure.judged total (exists_normalizeAll_of_admits c) fun _ h => h.normalizeAll_eq c

end ApiModel.Operation
