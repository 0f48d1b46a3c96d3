import ApiModel.Proofs.Document
import ApiModel.Proofs.Operation.Paths

/-! The paths of the operations of a model, and what the model as a whole says of them. -/

namespace ApiModel.Document

variable {c : Config} {d : Document} {m : Model}

theorem forall₂_operations (h : d.normalize c = .ok m) :
    List.Forall₂ (fun op o => op.normalize c = .ok o) d.operations m.operations := by
  obtain ⟨_, _, ops, _, _, each, rfl⟩ := normalize_eq_ok_iff.1 h
  exact (Operation.normalizeAll_eq_ok_iff.1 each).1

theorem hasEncodableParameters_iff (h : d.normalize c = .ok m) :
    m.hasEncodableParameters = true ↔ ∃ op ∈ d.operations, op.placeholders ≠ [] := by
  have each := forall₂_operations h
  have told : m.hasEncodableParameters =
      m.operations.any fun o => !o.view.consumedParameters.isEmpty := by
    obtain ⟨_, _, ops, _, _, _, rfl⟩ := normalize_eq_ok_iff.1 h
    rfl
  have used : (∃ o ∈ m.operations, o.view.consumedParameters ≠ []) ↔
      ∃ op ∈ d.operations, op.placeholders ≠ [] := by
    constructor
    · rintro ⟨o, ho, some⟩
      obtain ⟨op, hop, done⟩ := exists_mem_of_forall₂ each.flip o ho
      have agrees := Operation.pathAgrees_of_normalize done
      exact ⟨op, hop, fun none => some (agrees.consumed_eq_nil_iff.2 none)⟩
    · rintro ⟨op, hop, some⟩
      obtain ⟨o, ho, done⟩ := exists_mem_of_forall₂ each op hop
      have agrees := Operation.pathAgrees_of_normalize done
      exact ⟨o, ho, fun none => some (agrees.consumed_eq_nil_iff.1 none)⟩
  rw [told, ← used]
  simp

theorem hasFormParameters_iff (h : d.normalize c = .ok m) :
    m.hasFormParameters = true ↔ ∃ o ∈ m.operations, o.view.groups.form ≠ [] := by
  have each := forall₂_operations h
  have told : m.hasFormParameters = m.operations.any (·.hasFormParameters) := by
    obtain ⟨_, _, ops, _, _, _, rfl⟩ := normalize_eq_ok_iff.1 h
    rfl
  rw [told, List.any_eq_true]
  refine exists_congr fun o => and_congr_right fun ho => ?_
  obtain ⟨op, _, done⟩ := exists_mem_of_forall₂ each.flip o ho
  rw [ne_eq, Operation.form_eq_nil_iff done, Bool.not_eq_false]

/-- Path and parameter lists of a normalized operation fit together, and a model tells whether any
of its paths takes a parameter and whether any of its operations has form parameters. -/
theorem normalize_paths :
    (∀ (c : Config) (op o : Operation), op.normalize c = .ok o →
      Operation.PathAgrees c.pathDialect op o) ∧
    ∀ (c : Config) (d : Document) (m : Model), d.normalize c = .ok m →
      (m.hasEncodableParameters = true ↔ ∃ op ∈ d.operations, op.placeholders ≠ []) ∧
      (m.hasFormParameters = true ↔ ∃ o ∈ m.operations, o.view.groups.form ≠ []) :=
  ⟨fun _ _ _ => Operation.pathAgrees_of_normalize,
    fun _ _ _ h => ⟨hasEncodableParameters_iff h, hasFormParameters_iff h⟩⟩

def filing : Operation where
  method := .put
  path := "/files/{2nd}/{class}/{fileId}/{ID}/of/{class}"
  parameters := [.plain "class" .query "string", .plain "2nd" .path "integer",
    .plain "file_id" .path "string", .plain "class" .path "string", .plain "ID" .path "string",
    .plain "FILE" .form "Blob"]

theorem normalize_paths_filing :
    let c : Config := { pathDialect := .typescriptPlain }
    ∃ o m, filing.normalize c = .ok o ∧ Operation.PathAgrees .typescriptPlain filing o ∧
      o.view.renderedPath = "/files/${_2nd}/${_class}/${fileId}/${ID}/of/${_class}" ∧
      o.view.consumedParameters = ["2nd", "class", "file_id", "ID"] ∧
      ({ operations := [filing] } : Document).normalize c = .ok m ∧
      m.hasEncodableParameters = true ∧
      (m.hasFormParameters = true ↔ ∃ o ∈ m.operations, o.view.groups.form ≠ []) := by
  intro c
  obtain ⟨m, hm, shown⟩ := exists_normalize_of_any (d := { operations := [filing] }) (c := c)
    (P := fun m => m.operations.all fun o => decide (
      o.view.renderedPath =
        "/files/${_2nd}/${_class}/${fileId}/${ID}/of/${_class}" ∧
      o.view.consumedParameters = ["2nd", "class", "file_id", "ID"])) (by decide +kernel)
  obtain ⟨o, ho, done⟩ :=
    exists_mem_of_forall₂ (forall₂_operations hm) filing List.mem_cons_self
  obtain ⟨written, consumed⟩ := of_decide_eq_true (List.all_eq_true.1 shown o ho)
  obtain ⟨encodable, form⟩ := normalize_paths.2 c _ m hm
  have placeholder : filing.placeholders ≠ [] := by decide +kernel
  exact ⟨o, m, done, normalize_paths.1 c filing o done, written, consumed, hm,
    encodable.2 ⟨filing, List.mem_cons_self, placeholder⟩, form⟩

end ApiModel.Document
