import ApiModel.Proofs.Registry.NullAlternatives
import ApiModel.Registry.Normalization

/-! What the assignment of tags and imports does to each schema. Tags change the entries of its
lists and nothing else of them, imports are only added, and the authored part stays. -/

namespace ApiModel

namespace Property

/-- The property as the assignments to a schema leave it, the last one counting. -/
def retag (as : List TagAssignment) (schema : String) (p : Property) : Property :=
  as.foldl (fun p a =>
    if a.schema = schema ∧ p.isNamed a.property then { p with tag := some a.tag } else p) p

@[simp] theorem untagged_retag (as : List TagAssignment) (schema : String) (p : Property) :
    (p.retag as schema).untagged = p.untagged := by
  induction as generalizing p with
  | nil => rfl
  | cons a as ih =>
    rw [retag, List.foldl_cons, ← retag, ih]
    split <;> rfl

theorem apply_retag {β : Type} {f : Property → β} (tagless : ∀ p, f p.untagged = f p)
    (as : List TagAssignment) (schema : String) (p : Property) : f (p.retag as schema) = f p :=
  apply_of_erased (untagged_retag as schema) tagless p

section
variable (as : List TagAssignment) (schema : String) (p : Property)

@[simp] theorem name_retag : (p.retag as schema).name = p.name :=
  apply_retag (f := name) (fun _ => rfl) as schema p

@[simp] theorem isInherited_retag : (p.retag as schema).isInherited = p.isInherited :=
  apply_retag (f := isInherited) (fun _ => rfl) as schema p

@[simp] theorem inherited_retag : (p.retag as schema).inherited = p.inherited :=
  apply_retag (f := inherited) (fun _ => rfl) as schema p

@[simp] theorem unmarked_retag : (p.retag as schema).unmarked = p.unmarked :=
  apply_retag (f := unmarked) (fun _ => rfl) as schema p

@[simp] theorem sameEnum_retag (q : Property) :
    p.sameEnum (q.retag as schema) = p.sameEnum q :=
  apply_retag (f := p.sameEnum) (fun _ => rfl) as schema q

variable (l : List Property)

@[simp] theorem map_untagged_retag : (l.map (retag as schema)).map untagged = l.map untagged := by
  simp only [List.map_map, Function.comp_def, untagged_retag]

@[simp] theorem map_unmarked_retag : (l.map (retag as schema)).map unmarked = l.map unmarked := by
  simp only [List.map_map, Function.comp_def, unmarked_retag]

theorem find?_map_retag (x : String) : (l.map (retag as schema)).find? (·.name == x) =
    (l.find? (·.name == x)).map (retag as schema) := by
  simp only [List.find?_map, Function.comp_def, name_retag]

end

end Property

theorem Members.map_untagged_retag (as : List TagAssignment) (schema : String) (m : Members) :
    (m.map (·.map (Property.retag as schema))).map (·.map Property.untagged) =
      m.map (·.map Property.untagged) := by
  simp only [Members.map, Property.map_untagged_retag]

namespace Schema

def retag (as : List TagAssignment) (s : Schema) : Schema :=
  s.mapMembers fun l => l.map (Property.retag as s.name)

def addImports (names : List String) (s : Schema) : Schema :=
  { s with view := { s.view with imports := s.view.imports.putAll names } }

@[simp] theorem name_addImports (names : List String) (s : Schema) :
    (s.addImports names).name = s.name := rfl

theorem mapMembers_congr {f g : List Property → List Property} (h : ∀ l, f l = g l) (s : Schema) :
    s.mapMembers f = s.mapMembers g := by rw [funext h]

theorem retag_nil (s : Schema) : s.retag [] = s :=
  mapMembers_congr (g := id) (fun l => List.map_id l) s

theorem retag_cons_of_ne {a : TagAssignment} {s : Schema} (h : a.schema ≠ s.name)
    (as : List TagAssignment) : s.retag (a :: as) = s.retag as := by
  apply mapMembers_congr
  intro l
  apply List.map_congr_left
  intro p _
  simp only [Property.retag, List.foldl_cons, h, false_and, if_false]

theorem retag_cons_of_eq {a : TagAssignment} {s : Schema} (h : a.schema = s.name)
    (as : List TagAssignment) : s.retag (a :: as) = (a.apply s).retag as := by
  show s.mapMembers _ = s.mapMembers fun l => (l.map _).map _
  apply mapMembers_congr
  intro l
  rw [List.map_map]
  apply List.map_congr_left
  intro p _
  simp only [Property.retag, List.foldl_cons, h, true_and, Function.comp_apply]
  rfl

end Schema

namespace Registry

variable {c : Config} {order : List String}

def importedChildren (known : Registry) (name : String) : List String :=
  match known.base? name with
  | none => []
  | some _ => ((known.childSchemas name).map (·.name)).filter (· != name)

theorem find?_applyTags (as : List TagAssignment) (r : Registry) (n : String) :
    (as.foldl applyTag r).find? n = (r.find? n).map (Schema.retag as) := by
  induction as generalizing r with
  | nil => rw [List.foldl_nil, funext Schema.retag_nil, Option.map_id']
  | cons a as ih =>
    have name (s : Schema) : (a.apply s).name = s.name := rfl
    rw [List.foldl_cons, ih, applyTag, Keyed.find?_update name]
    split
    next eq =>
      rw [Option.map_map]
      apply Option.map_congr
      intro s hs
      rw [Schema.retag_cons_of_eq (eq.trans (Keyed.key_of_find? hs).symm)]
      rfl
    next ne =>
      apply Option.map_congr
      intro s hs
      rw [Schema.retag_cons_of_ne (Keyed.key_of_find? hs ▸ ne)]

theorem find?_importChildren (known r : Registry) (name n : String) :
    (importChildren known r name).find? n =
      if name = n then (r.find? n).map (Schema.addImports (importedChildren known n))
      else r.find? n := by
  unfold importChildren
  split
  next none =>
    split
    next eq =>
      have : importedChildren known n = [] := by simp only [importedChildren, ← eq, none]
      rw [this]
      exact Option.map_id'.symm
    next => rfl
  next base _ some =>
    have names : importedChildren known name =
        ((known.childSchemas name).map (·.name)).filter (· != name) := by
      simp only [importedChildren, some]
    show (Keyed.update r name (Schema.addImports _)).find? n = _
    rw [Keyed.find?_update (Schema.name_addImports _), ← names]
    split
    next eq => rw [eq]
    next => rfl

/-- What the base called `name` imports when the bases in `order` import their children. -/
def importedInTurn (known : Registry) (order : List String) (name : String) : List String :=
  (order.filter (· == name)).flatMap known.importedChildren

theorem find?_importEach (known : Registry) (order : List String) (r : Registry) (n : String) :
    (order.foldl (importChildren known) r).find? n =
      (r.find? n).map (Schema.addImports (known.importedInTurn order n)) := by
  induction order generalizing r with
  | nil => exact Option.map_id'.symm
  | cons name order ih =>
    rw [List.foldl_cons, ih, find?_importChildren]
    split
    next eq =>
      have first : known.importedInTurn (name :: order) n =
          known.importedChildren n ++ known.importedInTurn order n := by
        simp only [importedInTurn, eq, List.filter_cons, beq_self_eq_true, if_true,
          List.flatMap_cons]
      rw [Option.map_map, first]
      apply Option.map_congr
      intro s _
      simp only [Schema.addImports, Keyed.putAll, List.foldl_append, Function.comp_apply]
    next ne =>
      have skip : known.importedInTurn (name :: order) n = known.importedInTurn order n := by
        simp only [importedInTurn, List.filter_cons, beq_eq_false_iff_ne.2 ne, Bool.false_eq_true,
          if_false]
      rw [skip]

theorem assignTags_of_classical (h : c.profile.isTaggedUnion = false) (r : Registry)
    (order : List String) : r.assignTags c order = r := by
  rw [assignTags, h, if_neg Bool.false_ne_true]

theorem find?_assignTags (h : c.profile.isTaggedUnion = true) (r : Registry) (order : List String)
    (n : String) : (r.assignTags c order).find? n = (r.find? n).map fun s =>
      (s.retag (order.flatMap r.tagAssignments)).addImports (r.importedInTurn order n) := by
  rw [assignTags, if_pos h, find?_importEach, find?_applyTags, Option.map_map]
  rfl

theorem find?_assignModelImports (m : Naming) (r : Registry) (n : String) :
    (r.assignModelImports m).find? n = (r.find? n).map (Schema.assignModelImports m) :=
  Keyed.find?_map _ _ r n

theorem cleared_assignTags (c : Config) (r : Registry) (order : List String) (n : String) :
    ((r.assignTags c order).find? n).map Schema.cleared = (r.find? n).map Schema.cleared := by
  cases h : c.profile.isTaggedUnion with
  | false => rw [assignTags_of_classical h]
  | true =>
    rw [find?_assignTags h, Option.map_map]
    rfl

theorem cleared_assignModelImports (m : Naming) (r : Registry) (n : String) :
    ((r.assignModelImports m).find? n).map Schema.cleared = (r.find? n).map Schema.cleared := by
  rw [find?_assignModelImports, Option.map_map]
  rfl

end Registry

end ApiModel
