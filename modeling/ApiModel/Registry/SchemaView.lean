import ApiModel.Event
import ApiModel.Registry.DependencyOrder

/-!
The view of one schema among the schemas it refers to. Its own properties, less the enums that the
parent has too, come first; then the members of the schemas it embeds; then those of the parent.
Of several members with one name the first one counts, and the members of alternatives are taken
away in the end. What a schema takes over is read from the views of the others, so these have to be
complete before.
-/

namespace ApiModel.Schema

variable (c : Config) (r : Registry) (s : Schema)

/-- The alternatives that are dropped when a schema becomes nullable instead. -/
def nullAlternatives : List Component :=
  if c.stripsNull then s.composedFrom.filter fun k => k.isNull && k.isAlternative else []

def keptComponents : List Component :=
  if c.stripsNull then s.composedFrom.filter fun k => !(k.isNull && k.isAlternative)
  else s.composedFrom

def becomesNullable : Bool := s.isNullable || !(nullAlternatives c s).isEmpty

def parentMembers : List Property :=
  match r.parent? s with
  | none => []
  | some parent => parent.view.members.all

def isRedeclared (p : Property) : Bool := (parentMembers r s).any p.sameEnum

/-- Gives the property that tells the subtypes of the parent apart the name of `s` as its default,
unless it is read-only or has a default already. -/
def withSubtypeDefault (p : Property) : Property :=
  if !p.isReadOnly && !p.hasDefault && (r.parent? s).any (·.discriminates p) then
    p.withDefault s.name
  else p

def ownMembers : List Property :=
  (s.properties.filter (!isRedeclared r s ·)).map (withSubtypeDefault r s)

def inheritedMembers : List Property :=
  let own := ownMembers r s
  ((parentMembers r s).filter fun p => !Property.declares own p.name).map Property.inherited

def embeddedMembers : List Property :=
  let own := ownMembers r s
  (s.embedded.filterMap fun k => r.find? k.name).flatMap fun t =>
    (t.view.members.all.filter fun p => !Property.declares own p.name).map Property.inherited

def readWriteCandidates : List Property :=
  (ownMembers r s ++ embeddedMembers r s).filter (!·.isReadOnly)

/-- Every definition that `s` has of its members, read-only ones last. -/
def candidates : List Property :=
  (readWriteCandidates r s).eraseDups ++
    (ownMembers r s ++ embeddedMembers r s).filter (·.isReadOnly)

def directMembers : List Property := Property.firstOfEachName (candidates r s)

def visibleCandidates : List Property :=
  directMembers r s ++ if c.profile.isTaggedUnion then inheritedMembers r s else []

def visibleMembers : List Property := Property.firstOfEachName (visibleCandidates c r s)

def alternatives : List Component :=
  s.composedFrom.filter fun k => k.isAlternative && !k.isNull && k.name != s.name

/-- The names of properties that belong to alternatives and not to `s`. -/
def droppedNames : List String :=
  (s.alternatives.filterMap fun k => r.find? k.name).flatMap fun t =>
    (t.properties.filter (!s.discriminates ·)).map (·.name)

def members : Members :=
  let direct := directMembers r s
  let inherited := inheritedMembers r s
  let visible := visibleMembers c r s
  let dropped := droppedNames r s
  let keep (l : List Property) := l.filter fun p => !dropped.contains p.name
  { vars := keep visible
    all := keep (Property.firstOfEachName (visible ++ inherited))
    required := keep (visible.filter (·.isRequired))
    optional := keep (visible.filter (!·.isRequired))
    readOnly := keep (direct.filter (·.isReadOnly))
    readWrite := keep (direct.filter (!·.isReadOnly))
    parent := inherited }

def base : Option String :=
  if c.profile.isTaggedUnion then none else (r.parent? s).map (·.name)

/-- The schemas that the generated code of `s` refers to, itself excepted. -/
def importsFor (all : List Property) : NameSet :=
  let composed : NameSet := .ofList ((s.composedFrom.filter (!·.isNull)).map (·.name))
  let related :=
    if c.profile.isTaggedUnion then composed.filter fun name => s.parent != some name
    else composed.putAll (base c r s).toList
  (related.putAll (all.filterMap (·.complexType))).erase s.name

/-- The schema with its view computed anew; nothing of the old view is used. -/
def normalize : Schema :=
  let members := members c r s
  { s with
    composedFrom := keptComponents c s
    isNullable := becomesNullable c s
    view := {
      base := base c r s
      members := members.map Property.sort
      imports := importsFor c r s members.all
      modelImports := [] } }

def parentEvents : List Event :=
  match s.parent with
  | some parent => if r.contains parent then [] else [.parentUnknown s.name parent]
  | none => []

def unknownEvents (components : List Component) : List Event :=
  (components.filter fun k => !r.contains k.name).map fun k => .componentUnknown s.name k.name

def conflictEvents (l : List Property) : List Event :=
  (Property.conflicting l).map fun p => .definitionIgnored s.name p.name

def events : List Event :=
  (if (nullAlternatives c s).isEmpty then [] else [.nullAlternativeDropped s.name]) ++
  parentEvents r s ++
  (s.properties.filter (isRedeclared r s)).map (fun p => .enumRedeclared s.name p.name) ++
  (inheritedMembers r s).map (fun p => .parentMemberAdded s.name p.name) ++
  unknownEvents r s s.embedded ++
  Property.repetitionEvents (readWriteCandidates r s) ++
  conflictEvents s (candidates r s) ++
  conflictEvents s (visibleCandidates c r s) ++
  conflictEvents s (visibleMembers c r s ++ inheritedMembers r s) ++
  unknownEvents r s s.alternatives ++
  match droppedNames r s with
  | [] => []
  | names => [.alternativeMembersDropped s.name names]

end ApiModel.Schema
