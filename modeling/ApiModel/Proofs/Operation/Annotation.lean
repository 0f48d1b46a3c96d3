import ApiModel.Document
import ApiModel.Proofs.Operation.Admission
import ApiModel.Proofs.Operation.Paths

/-! Lists of operations. Each operation is annotated by itself: what it authors stays, names that it
leaves out are filled in, and nothing counts that was derived for it before. The ids of the results
are distinct, so a model finds each of them under its own. -/

namespace ApiModel

/-- `q` is `p`, with an identifier filled in if `p` has none. -/
structure Parameter.Fills (p q : Parameter) : Prop where
  rest : q = { p with identifier := q.identifier }
  given : p.identifier ≠ "" → q.identifier = p.identifier
  nonempty : q.identifier ≠ ""

theorem Parameter.fills_identified (p : Parameter) : p.Fills p.identified where
  rest := rfl
  given := derivedIdentifier_of_ne_empty
  nonempty := p.identifier_identified_ne_empty

namespace Operation

variable {c : Config} {op op' o : Operation} {ops ops' out : List Operation}

def cleared (op : Operation) : Operation := { op with view := {} }

/-- `o` is `op` with its names filled in, derived from what `op` authors. -/
structure Annotates (c : Config) (op o : Operation) : Prop where
  normalized : op.normalize c = .ok o
  method : o.method = op.method
  path : o.path = op.path
  responses : o.responses = op.responses
  parameters : List.Forall₂ Parameter.Fills op.parameters o.parameters
  given : op.operationId ≠ "" → o.operationId = op.operationId
  nonempty : o.operationId ≠ ""
  authored : ∀ op' : Operation, op'.cleared = op.cleared → op'.normalize c = .ok o

theorem normalize_cleared (c : Config) (op : Operation) : op.cleared.normalize c = op.normalize c :=
  rfl

theorem normalize_congr (h : op.cleared = op'.cleared) (c : Config) :
    op.normalize c = op'.normalize c := by
  rw [← normalize_cleared, h, normalize_cleared]

theorem finalId_of_ne_empty (h : op.operationId ≠ "") : op.finalId = op.operationId := by
  rw [finalId, if_neg (by simpa using h)]

theorem finalId_ne_empty (op : Operation) : op.finalId ≠ "" := by
  unfold finalId
  split
  next =>
    rw [derivedId, ne_eq, ← String.toList_eq_nil_iff, String.toList_ofList]
    exact Name.identifier_ne_nil _
  next given => simpa using given

theorem annotates_of_normalize (h : op.normalize c = .ok o) : Annotates c op o := by
  have id := operationId_of_normalize h
  obtain ⟨parts, bound, rfl⟩ := normalize_eq_ok_iff.1 h
  constructor
  case normalized => exact h
  case method => rfl
  case path => rfl
  case responses => rfl
  case parameters =>
    show List.Forall₂ Parameter.Fills op.parameters (op.parameters.map Parameter.identified)
    rw [List.forall₂_map_right_iff, List.forall₂_same]
    exact fun p _ => p.fills_identified
  case given => exact fun given => id.trans (finalId_of_ne_empty given)
  case nonempty => exact id ▸ op.finalId_ne_empty
  case authored => exact fun op' same => (normalize_congr same c).trans h

theorem normalizeAll_go_cleared (c : Config) (ids : List String) (ops : List Operation) :
    normalizeAll.go c ids (ops.map cleared) = normalizeAll.go c ids ops := by
  induction ops generalizing ids with
  | nil => rfl
  | cons op ops ih => simp only [List.map_cons, normalizeAll.go, normalize_cleared, ih]

theorem normalizeAll_congr (h : ops.map cleared = ops'.map cleared) (c : Config) :
    normalizeAll c ops = normalizeAll c ops' := by
  unfold normalizeAll
  rw [← normalizeAll_go_cleared, h, normalizeAll_go_cleared]

theorem operation?_of_mem {m : Model} (nodup : (m.operations.map (·.operationId)).Nodup)
    (ho : o ∈ m.operations) : m.operation? o.operationId = some o :=
  (find?_key_eq_some_iff nodup).2 ⟨ho, rfl⟩

/-- The operations come out in the order in which they went in, each annotated by itself. -/
theorem normalizeAll_annotates (h : normalizeAll c ops = .ok out) :
    List.Forall₂ (Annotates c) ops out ∧ (out.map (·.operationId)).Nodup ∧
      (∀ ops', ops.map cleared = ops'.map cleared → normalizeAll c ops' = .ok out) ∧
      ∀ m : Model, m.operations = out → ∀ o ∈ out, m.operation? o.operationId = some o := by
  obtain ⟨each, nodup⟩ := normalizeAll_eq_ok_iff.1 h
  refine ⟨each.imp fun _ _ => annotates_of_normalize, nodup,
    fun _ same => normalizeAll_congr same c ▸ h, ?_⟩
  rintro m rfl o ho
  exact operation?_of_mem nodup ho

def gallery : List Operation := [
  photos,
  { plain "" .delete "/pets/\x7bpet_id\x7d" with
    parameters := [.plain "pet_id" .path "number"]
    view := { renderedPath := "/animals" } }]

theorem normalizeAll_annotates_gallery : ∃ out, normalizeAll {} gallery = .ok out ∧
    out.map (·.operationId) = ["listPhotos", "deletePets"] ∧
    List.Forall₂ (Annotates {}) gallery out ∧ normalizeAll {} (gallery.map cleared) = .ok out ∧
    ∀ o ∈ out, ({ operations := out } : Model).operation? o.operationId = some o := by
  have ids : (normalizeAll {} gallery).toOption.map (·.map (·.operationId)) =
      some ["listPhotos", "deletePets"] := by decide +kernel
  cases h : normalizeAll {} gallery with
  | error f =>
    rw [h] at ids
    cases ids
  | ok out =>
    rw [h] at ids
    obtain ⟨each, _, authored, found⟩ := normalizeAll_annotates h
    exact ⟨out, rfl, Option.some.inj ids, each, authored _ rfl, found { operations := out } rfl⟩

end Operation

end ApiModel
