import ApiModel.Json.ShapeCodec
import ApiModel.Operation

/-!
Operations in JSON, with their parameters and responses.
-/

namespace ApiModel

open Json

namespace Method

def all : List Method := [get, post, put, patch, delete, head, options]

def codec : Codec Method := .choice all text

end Method

namespace Location

def all : List Location := [path, query, header, cookie, body, form]

def text : Location → String
  | path => "path"
  | query => "query"
  | header => "header"
  | cookie => "cookie"
  | body => "body"
  | form => "form"

def codec : Codec Location := .choice all text

end Location

namespace Parameter

def fields : List (RecordField Parameter) := [
  .plain "name" .string name fun p v => { p with name := v },
  .plain "paramName" .string identifier fun p v => { p with identifier := v },
  .plain "in" Location.codec location fun p v => { p with location := v },
  .plain "dataType" .string dataType fun p v => { p with dataType := v },
  .optional "dataFormat" .string dataFormat fun p v => { p with dataFormat := v },
  .plain "required" .bool isRequired fun p v => { p with isRequired := v },
  .plain "isNullable" .bool isNullable fun p v => { p with isNullable := v },
  .optional "defaultValue" .string defaultValue fun p v => { p with defaultValue := v },
  .optional "style" .string style fun p v => { p with style := v },
  .optional "explode" .bool explode fun p v => { p with explode := v }]

def codec : Codec Parameter := Record.codec fields {}

end Parameter

namespace Response

def fields : List (RecordField Response) := [
  .plain "statusCode" .string statusCode fun r v => { r with statusCode := v },
  .optional "dataType" .string dataType fun r v => { r with dataType := v },
  .optional "baseType" .string baseType fun r v => { r with baseType := v },
  .optional "containerType" .string containerType fun r v => { r with containerType := v },
  .plain "isArray" .bool isArray fun r v => { r with isArray := v },
  .plain "isMap" .bool isMap fun r v => { r with isMap := v },
  .optional "itemType" .string itemType fun r v => { r with itemType := v },
  .optional "valueType" .string valueType fun r v => { r with valueType := v },
  .optional "message" .string message fun r v => { r with message := v }]

def codec : Codec Response := Record.codec fields {}

end Response

namespace Operation

def withGroups (op : Operation) (groups : ParameterGroups) : Operation :=
  { op with view := { op.view with groups } }

def withSuccess (op : Operation) (success : Success) : Operation :=
  { op with view := { op.view with success } }

def groupField (name : String) (get : ParameterGroups → List Parameter)
    (set : ParameterGroups → List Parameter → ParameterGroups) : RecordField Operation :=
  .plain name Parameter.codec.list (get ·.view.groups) fun op v =>
    op.withGroups (set op.view.groups v)

def fields : List (RecordField Operation) := [
  .plain "operationId" .string operationId fun op v => { op with operationId := v },
  .plain "method" Method.codec method fun op v => { op with method := v },
  .plain "path" .string path fun op v => { op with path := v },
  .plain "parameters" Parameter.codec.list parameters fun op v => { op with parameters := v },
  .plain "responses" Response.codec.list responses fun op v => { op with responses := v },
  groupField "allParams" (·.all) fun g v => { g with all := v },
  groupField "pathParams" (·.path) fun g v => { g with path := v },
  groupField "queryParams" (·.query) fun g v => { g with query := v },
  groupField "headerParams" (·.header) fun g v => { g with header := v },
  groupField "cookieParams" (·.cookie) fun g v => { g with cookie := v },
  groupField "bodyParams" (·.body) fun g v => { g with body := v },
  groupField "formParams" (·.form) fun g v => { g with form := v },
  groupField "requiredParams" (·.required) fun g v => { g with required := v },
  groupField "optionalParams" (·.optional) fun g v => { g with optional := v },
  .plain "renderedPath" .string (·.view.renderedPath)
    fun op v => { op with view := { op.view with renderedPath := v } },
  .plain "consumedParams" Codec.string.list (·.view.consumedParameters)
    fun op v => { op with view := { op.view with consumedParameters := v } },
  .plain "successShape" SuccessShape.codec (·.view.success.shape)
    fun op v => op.withSuccess { op.view.success with shape := v },
  .optional "successStatus" .string (·.view.success.statusCode)
    fun op v => op.withSuccess { op.view.success with statusCode := v },
  .optional "successMessage" .string (·.view.success.message)
    fun op v => op.withSuccess { op.view.success with message := v }]

def codec : Codec Operation := Record.codec fields {}

end Operation

end ApiModel
