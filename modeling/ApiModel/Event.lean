import ApiModel.Config
import ApiModel.Text.Quoted

/-!
What a run reports while it works: warnings about parts of a document that had to be ignored, and
notes on what was changed. An event is told by its level, a fixed message and its named fields.
-/

namespace ApiModel

inductive Event
  | documentStarted (profile : Profile) (schemas operations : Nat)
  | documentFinished (schemas operations : Nat)
  | nullAlternativeDropped (schema : String)
  | parentUnknown (schema parent : String)
  | enumRedeclared (schema property : String)
  | parentMemberAdded (schema property : String)
  | componentUnknown (schema component : String)
  | duplicateDropped (property : String)
  | definitionIgnored (schema property : String)
  | alternativeMembersDropped (schema : String) (properties : List String)
  | childUnknown (schema child : String)
  | childWithoutTag (schema child : String)
  | tagAssigned (schema tag : String)
  | operationIdDerived (method path operationId : String)
  | pathExpanded (path rendered : String)
  | responsesMissing
deriving DecidableEq, Repr

namespace Event

inductive Level
  | warn
  | info
  | debug
deriving DecidableEq, Repr

inductive Value
  | text (s : String)
  | count (n : Nat)
deriving DecidableEq, Repr

def Level.text : Level → String
  | .warn => "WARN"
  | .info => "INFO"
  | .debug => "DEBUG"

def level : Event → Level
  | documentFinished .. => .info
  | parentUnknown .. | componentUnknown .. | definitionIgnored .. | childUnknown ..
  | childWithoutTag .. | operationIdDerived .. => .warn
  | documentStarted .. | nullAlternativeDropped .. | enumRedeclared .. | parentMemberAdded ..
  | duplicateDropped .. | alternativeMembersDropped .. | tagAssigned .. | pathExpanded ..
  | responsesMissing => .debug

def message : Event → String
  | documentStarted .. => "Normalizing model document."
  | documentFinished .. => "Model normalized."
  | nullAlternativeDropped .. => "Stripped null variant, marking schema nullable."
  | parentUnknown .. => "Parent schema not found, treating schema as having no parent."
  | enumRedeclared .. => "Removing enum redeclared from parent."
  | parentMemberAdded .. => "Adding parent variable."
  | componentUnknown .. => "Composed schema not found, skipping."
  | duplicateDropped .. => "Removing duplicate read-write property."
  | definitionIgnored .. => "Conflicting definitions for property, keeping the first one."
  | alternativeMembersDropped .. => "Removing properties declared in composed types."
  | childUnknown .. => "Discriminator child not found, skipping."
  | childWithoutTag .. => "No discriminator mapping for child, leaving its tag unset."
  | tagAssigned .. => "Assigning discriminator tag."
  | operationIdDerived .. => "Operation has no operationId, using a derived one."
  | pathExpanded .. => "Expanded path template."
  | responsesMissing => "No responses declared, success shape is None."

def fields : Event → List (String × Value)
  | documentStarted profile schemas operations =>
    [("profile", .text profile.text), ("schemas", .count schemas),
      ("operations", .count operations)]
  | documentFinished schemas operations =>
    [("schemas", .count schemas), ("operations", .count operations)]
  | nullAlternativeDropped schema => [("schema", .text schema)]
  | parentUnknown schema parent => [("schema", .text schema), ("parent", .text parent)]
  | enumRedeclared schema property | parentMemberAdded schema property
  | definitionIgnored schema property =>
    [("schema", .text schema), ("property", .text property)]
  | componentUnknown schema component =>
    [("schema", .text schema), ("composed", .text component)]
  | duplicateDropped property => [("property", .text property)]
  | alternativeMembersDropped schema properties =>
    [("schema", .text schema), ("removed", .text (quotedList properties))]
  | childUnknown schema child | childWithoutTag schema child =>
    [("schema", .text schema), ("child", .text child)]
  | tagAssigned schema tag => [("schema", .text schema), ("tag", .text tag)]
  | operationIdDerived method path operationId =>
    [("method", .text method), ("path", .text path), ("operation_id", .text operationId)]
  | pathExpanded path rendered => [("path", .text path), ("rendered", .text rendered)]
  | responsesMissing => []

end Event

end ApiModel
