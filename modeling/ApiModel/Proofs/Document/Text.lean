import ApiModel.Json.DocumentCodec
import ApiModel.Proofs.Json.Codec
import ApiModel.Proofs.Json.Reading

/-! Models as texts. The text of a model is read as the document that the model can serve as: what
is left out of it is what reading supplies, and what only a model has is passed over. -/

namespace ApiModel

open Json

@[simp] theorem Property.roundTrips_codec : codec.RoundTrips := by
  apply Record.roundTrips (by decide)
  · simp [Record.Complete, fields]
  · intro p
    simp [fields, ok_bind]

@[simp] theorem Discriminator.roundTrips_codec : codec.RoundTrips := by
  apply Record.roundTrips (by decide)
  · simp [Record.Complete, fields]
  · intro d
    simp [fields, ok_bind]

@[simp] theorem Discriminator.neverNull_codec : codec.NeverNull := Record.neverNull fields {}

@[simp] theorem Composition.roundTrips_codec : codec.RoundTrips :=
  Codec.roundTrips_choice fun k => by cases k <;> rfl

@[simp] theorem Component.roundTrips_codec : codec.RoundTrips := by
  apply Record.roundTrips (by decide)
  · simp [Record.Complete, fields]
  · intro k
    simp [fields, ok_bind]

@[simp] theorem ModelImport.roundTrips_codec : codec.RoundTrips := by
  apply Record.roundTrips (by decide)
  · simp [Record.Complete, fields]
  · intro i
    simp [fields, ok_bind]

@[simp] theorem Schema.roundTrips_codec : codec.RoundTrips := by
  apply Record.roundTrips (by decide)
  · simp [Record.Complete, fields, memberField]
  · intro s
    simp [fields, memberField, ok_bind]

@[simp] theorem Method.roundTrips_codec : codec.RoundTrips :=
  Codec.roundTrips_choice fun m => by cases m <;> rfl

@[simp] theorem Location.roundTrips_codec : codec.RoundTrips :=
  Codec.roundTrips_choice fun l => by cases l <;> rfl

@[simp] theorem Parameter.roundTrips_codec : codec.RoundTrips := by
  apply Record.roundTrips (by decide)
  · simp [Record.Complete, fields]
  · intro p
    simp [fields, ok_bind]

@[simp] theorem Response.roundTrips_codec : codec.RoundTrips := by
  apply Record.roundTrips (by decide)
  · simp [Record.Complete, fields]
  · intro r
    simp [fields, ok_bind]

@[simp] theorem SuccessShape.roundTrips_codec : codec.RoundTrips := by
  intro shape
  cases shape with
  | none => rfl
  | object type => rfl
  | array item => cases item <;> rfl
  | map value => cases value <;> rfl

@[simp] theorem Operation.roundTrips_codec : codec.RoundTrips := by
  apply Record.roundTrips (by decide)
  · simp [Record.Complete, fields, groupField]
  · intro op
    simp [fields, groupField, withGroups, withSuccess, ok_bind]

theorem Document.read_write_model (m : Model) :
    codec.read (Draft.ofJson (Model.codec.write m)) = .ok m.toDocument := by
  let flags : List (String × Json) := [
    ("hasEncodableParams", .bool m.hasEncodableParameters),
    ("hasFormParams", .bool m.hasFormParameters)]
  have unknown : ∀ flag ∈ flags, fields.find? (·.name == flag.1) = none := by
    simp [flags, fields, RecordField.plain]
  have complete : Record.Complete fields := by simp [Record.Complete, fields]
  have members : Model.codec.write m = .object (Record.written fields m.toDocument ++ flags) := rfl
  rw [members, codec, Record.read_written_append (by decide) complete {} m.toDocument unknown]
  simp [fields, ok_bind]

namespace Model

theorem ofText_text (m : Model) : Document.ofText m.text = .ok m.toDocument ∧
    ∀ c : Config, Document.normalizeText c m.text = m.toDocument.normalize c := by
  have read : Document.ofText m.text = .ok m.toDocument := by
    rw [Document.ofText, Model.text, Reading.ofText_pretty]
    simp only [Document.read_write_model]
    rfl
  refine ⟨read, fun c => ?_⟩
  rw [Document.normalizeText, read]

end Model

end ApiModel
