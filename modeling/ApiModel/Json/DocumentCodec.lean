import ApiModel.Document
import ApiModel.Json.OperationCodec
import ApiModel.Json.Reading
import ApiModel.Json.SchemaCodec

/-!
Documents and models as JSON texts.
-/

namespace ApiModel

open Json

namespace Document

def fields : List (RecordField Document) := [
  .plain "schemas" Schema.codec.list schemas fun d v => { d with schemas := v },
  .plain "operations" Operation.codec.list operations fun d v => { d with operations := v }]

def codec : Codec Document := Record.codec fields {}

/-- Nothing but the document may stand in the text. -/
def ofText (text : String) : Except Fault Document := do
  let reading := Reading.ofText text
  let document ← codec.read reading.value
  if reading.isFollowed then throw .malformed
  return document

def normalizeText (c : Config) (text : String) : Except Failure Model :=
  match ofText text with
  | .error fault => .error (.unreadable fault)
  | .ok document => document.normalize c

def eventsOfText (c : Config) (text : String) : List Event :=
  match ofText text with
  | .error _ => []
  | .ok document => document.events c

end Document

namespace Model

def fields : List (RecordField Model) := [
  .plain "schemas" Schema.codec.list schemas fun m v => { m with schemas := v },
  .plain "operations" Operation.codec.list operations fun m v => { m with operations := v },
  .plain "hasEncodableParams" .bool hasEncodableParameters
    fun m v => { m with hasEncodableParameters := v },
  .plain "hasFormParams" .bool hasFormParameters fun m v => { m with hasFormParameters := v }]

def codec : Codec Model := Record.codec fields {}

def text (m : Model) : String := (codec.write m).pretty

end Model

end ApiModel
