import ApiModel.Json.Record
import ApiModel.Schema

/-!
Schemas in JSON. Values that a schema can be without are left out; so are the values of properties
that are no enums.
-/

namespace ApiModel

open Json

namespace Property

def fields : List (RecordField Property) := [
  .plain "name" .string name fun p v => { p with name := v },
  .plain "baseName" .string wireName fun p v => { p with wireName := v },
  .plain "dataType" .string dataType fun p v => { p with dataType := v },
  .optional "complexType" .string complexType fun p v => { p with complexType := v },
  .plain "isEnum" .bool isEnum fun p v => { p with isEnum := v },
  .unlessEmpty "enumValues" .string enumValues fun p v => { p with enumValues := v },
  .plain "isRequired" .bool isRequired fun p v => { p with isRequired := v },
  .plain "isReadOnly" .bool isReadOnly fun p v => { p with isReadOnly := v },
  .plain "isNullable" .bool isNullable fun p v => { p with isNullable := v },
  .optional "defaultValue" .string defaultValue fun p v => { p with defaultValue := v },
  .plain "isInherited" .bool isInherited fun p v => { p with isInherited := v },
  .optional "discriminatorValue" .string tag fun p v => { p with tag := v }]

def codec : Codec Property := Record.codec fields {}

end Property

namespace Discriminator

def fields : List (RecordField Discriminator) := [
  .plain "propertyName" .string propertyName fun d v => { d with propertyName := v },
  .plain "mapping" .stringMap mapping fun d v => { d with mapping := v }]

def codec : Codec Discriminator := Record.codec fields {}

end Discriminator

namespace Composition

def all : List Composition := [oneOf, anyOf, allOf]

def text : Composition → String
  | oneOf => "oneOf"
  | anyOf => "anyOf"
  | allOf => "allOf"

def codec : Codec Composition := .choice all text

end Composition

namespace Component

def fields : List (RecordField Component) := [
  .plain "kind" Composition.codec kind fun k v => { k with kind := v },
  .plain "name" .string name fun k v => { k with name := v },
  .optional "mappingTag" .string mappingTag fun k v => { k with mappingTag := v }]

def codec : Codec Component := Record.codec fields {}

end Component

namespace ModelImport

def fields : List (RecordField ModelImport) := [
  RecordField.required <| .plain "classname" .string className
    fun i v => { i with className := v },
  RecordField.required <| .plain "filename" .string fileName
    fun i v => { i with fileName := v }]

def codec : Codec ModelImport := Record.codec fields ⟨"", ""⟩

end ModelImport

namespace Schema

def memberField (name : String) (get : Members → List Property)
    (set : Members → List Property → Members) : RecordField Schema :=
  .plain name Property.codec.list (get ·.view.members) fun s v =>
    { s with view := { s.view with members := set s.view.members v } }

def fields : List (RecordField Schema) := [
  .plain "name" .string name fun s v => { s with name := v },
  .plain "properties" Property.codec.list properties fun s v => { s with properties := v },
  .optional "parent" .string parent fun s v => { s with parent := v },
  .optional "discriminator" Discriminator.codec discriminator
    fun s v => { s with discriminator := v },
  .plain "children" Codec.string.list children fun s v => { s with children := v },
  .plain "composedFrom" Component.codec.list composedFrom fun s v => { s with composedFrom := v },
  .plain "isMapType" .bool isMap fun s v => { s with isMap := v },
  .plain "isNullable" .bool isNullable fun s v => { s with isNullable := v },
  .optional "x-discriminator-value" .string tag fun s v => { s with tag := v },
  .optional "extends" .string (·.view.base)
    fun s v => { s with view := { s.view with base := v } },
  memberField "vars" (·.vars) fun m v => { m with vars := v },
  memberField "allVars" (·.all) fun m v => { m with all := v },
  memberField "requiredVars" (·.required) fun m v => { m with required := v },
  memberField "optionalVars" (·.optional) fun m v => { m with optional := v },
  memberField "readOnlyVars" (·.readOnly) fun m v => { m with readOnly := v },
  memberField "readWriteVars" (·.readWrite) fun m v => { m with readWrite := v },
  memberField "parentVars" (·.parent) fun m v => { m with parent := v },
  .plain "imports" .nameSet (·.view.imports)
    fun s v => { s with view := { s.view with imports := v } },
  .plain "modelImports" ModelImport.codec.list (·.view.modelImports)
    fun s v => { s with view := { s.view with modelImports := v } }]

def codec : Codec Schema := Record.codec fields {}

end Schema

end ApiModel
