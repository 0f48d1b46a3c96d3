import ApiModel.Proofs.Registry.Tagging

/-! Which tag a base has for one of its children, and which of several bases labels a member. The
assignments are made base by base, each over what the bases before have assigned, so the last base
with a tag for the member decides. -/

namespace ApiModel

namespace Keyed

variable {α : Type} {key : α → String}

theorem getLast?_eq_some_iff_of_ascending {l : List α} {a : α}
    (ascending : (l.map key).Pairwise (· < ·)) :
    l.getLast? = some a ↔ a ∈ l ∧ ∀ b ∈ l, key b ≤ key a := by
  rcases l.eq_nil_or_concat with rfl | ⟨front, last, rfl⟩
  · simp
  have below : ∀ b ∈ front, key b < key last := by
    intro b hb
    rw [List.concat_eq_append, List.map_append, List.pairwise_append] at ascending
    exact ascending.2.2 _ (List.mem_map_of_mem hb) _ (by simp)
  rw [List.concat_eq_append, List.getLast?_append, List.getLast?_singleton, Option.some_or,
    Option.some_inj]
  constructor
  · rintro rfl
    refine ⟨by simp, fun b hb => ?_⟩
    rcases List.mem_append.1 hb with front | same
    · exact Std.le_of_lt (below b front)
    · obtain rfl := List.mem_singleton.1 same
      exact String.le_refl _
  · rintro ⟨ha, greatest⟩
    rcases List.mem_append.1 ha with front | last'
    · have ge : key last ≤ key a := greatest last (by simp)
      exact absurd (below a front) (String.not_lt.2 ge)
    · exact (List.mem_singleton.1 last').symm

end Keyed

namespace Discriminator

variable {d : Discriminator} {b s : Schema} {name tag : String}

/-- `tag` is the greatest one that is mapped to the schema called `name`. -/
def MapsLast (d : Discriminator) (name tag : String) : Prop :=
  (tag, name) ∈ d.mapping.toList ∧ ∀ t, (t, name) ∈ d.mapping.toList → t ≤ tag

/-- The child `s` of `b` has the tag itself, or else has it from the mapping, or else from the first
component of `b` that is called like it. -/
def Gives (d : Discriminator) (b s : Schema) (tag : String) : Prop :=
  s.tag = some tag ∨ s.tag = none ∧ (d.MapsLast s.name tag ∨
    (∀ t, (t, s.name) ∉ d.mapping.toList) ∧
      ∃ k, b.composedFrom.find? (·.name == s.name) = some k ∧ k.mappingTag = some tag)

theorem tagFor_eq_some_iff : d.tagFor name = some tag ↔ d.MapsLast name tag := by
  have ascending : ((d.mapping.toList.filter (·.2 == name)).map Prod.fst).Pairwise (· < ·) :=
    d.mapping.ascending.sublist (List.filter_sublist.map _)
  have last (pair : String × String) := Keyed.getLast?_eq_some_iff_of_ascending (a := pair) ascending
  unfold tagFor MapsLast
  rw [Option.map_eq_some_iff]
  constructor
  · rintro ⟨⟨t, n⟩, found, rfl⟩
    obtain ⟨held, greatest⟩ := (last _).1 found
    obtain ⟨mapped, named⟩ := List.mem_filter.1 held
    obtain rfl : n = name := eq_of_beq named
    exact ⟨mapped, fun u hu => greatest (u, n) (List.mem_filter.2 ⟨hu, named⟩)⟩
  · rintro ⟨mem, greatest⟩
    refine ⟨(tag, name), (last _).2 ⟨List.mem_filter.2 ⟨mem, beq_self_eq_true name⟩, ?_⟩, rfl⟩
    rintro ⟨u, n⟩ held
    obtain ⟨mapped, named⟩ := List.mem_filter.1 held
    obtain rfl : n = name := eq_of_beq named
    exact greatest u mapped

theorem tagFor_eq_none_iff : d.tagFor name = none ↔ ∀ t, (t, name) ∉ d.mapping.toList := by
  unfold tagFor
  rw [Option.map_eq_none_iff, List.getLast?_eq_none_iff, List.filter_eq_nil_iff]
  constructor
  · intro none t mem
    exact none _ mem (beq_self_eq_true name)
  · rintro none ⟨t, n⟩ mem named
    exact none t (eq_of_beq named ▸ mem)

theorem tagOf_eq_some_iff : d.tagOf b s = some tag ↔ d.Gives b s tag := by
  have fallback : (d.tagFor s.name <|>
      (b.composedFrom.find? (·.name == s.name)).bind (·.mappingTag)) = some tag ↔
        d.MapsLast s.name tag ∨ (∀ t, (t, s.name) ∉ d.mapping.toList) ∧
          ∃ k, b.composedFrom.find? (·.name == s.name) = some k ∧ k.mappingTag = some tag := by
    rw [← tagFor_eq_some_iff, ← tagFor_eq_none_iff, ← Option.bind_eq_some_iff]
    cases d.tagFor s.name <;> simp
  unfold tagOf Gives
  rw [← fallback]
  cases s.tag <;> simp

end Discriminator

namespace Schema

variable {b s : Schema} {e : Property} {tag : String}

/-- `b` is a base with the tag for the child `s`, and its discriminator names the member `e`. -/
def Labels (b s : Schema) (e : Property) (tag : String) : Prop :=
  ∃ d, b.discriminator = some d ∧ (s.name ∈ b.children ∨ s.parent = some b.name) ∧
    e.isNamed d.propertyName = true ∧ d.Gives b s tag

def label (b s : Schema) (e : Property) : Option String :=
  b.discriminator.bind fun d =>
    if (b.children.contains s.name || s.parent == some b.name) && e.isNamed d.propertyName then
      d.tagOf b s
    else none

theorem label_eq_some_iff : b.label s e = some tag ↔ b.Labels s e tag := by
  unfold label Labels
  simp only [Option.bind_eq_some_iff, Option.ite_none_right_eq_some, Bool.and_eq_true,
    Bool.or_eq_true, List.contains_iff_mem, beq_iff_eq, Discriminator.tagOf_eq_some_iff, and_assoc]

end Schema

def TagAssignment.tagOn (schema : String) (p : Property) (a : TagAssignment) : Option String :=
  if a.schema = schema ∧ p.isNamed a.property then some a.tag else none

theorem Property.tag_retag (as : List TagAssignment) (schema : String) (p : Property) :
    (p.retag as schema).tag =
      ((as.filterMap (TagAssignment.tagOn schema p)).getLast?).or p.tag := by
  induction as generalizing p with
  | nil => rfl
  | cons a as ih =>
    by_cases on : a.schema = schema ∧ p.isNamed a.property
    · have first : a.tagOn schema p = some a.tag := if_pos on
      have step : p.retag (a :: as) schema = Property.retag as schema { p with tag := some a.tag } := by
        rw [retag, List.foldl_cons, if_pos on, ← retag]
      rw [step, ih, List.filterMap_cons_some first, List.getLast?_cons, Option.some_or]
      have same : TagAssignment.tagOn schema { p with tag := some a.tag } =
          TagAssignment.tagOn schema p := rfl
      rw [same]
      cases (as.filterMap (TagAssignment.tagOn schema p)).getLast? <;> rfl
    · have skipped : a.tagOn schema p = none := if_neg on
      have step : p.retag (a :: as) schema = p.retag as schema := by
        rw [retag, List.foldl_cons, if_neg on, ← retag]
      rw [step, ih, List.filterMap_cons_none skipped]

namespace Registry

variable {r : Registry} {b s : Schema} {n : String}

theorem mem_children (hb : r.find? n = some b) (hs : r.find? s.name = some s) :
    s.name ∈ (r.children n).toList ↔ s.name ∈ b.children ∨ s.parent = some b.name := by
  have linked : s.name ∈ (r.toList.filter (·.parent == some n)).map (·.name) ↔
      s.parent = some b.name := by
    rw [Keyed.key_of_find? hb, List.mem_map]
    constructor
    · rintro ⟨t, ht, name⟩
      obtain ⟨mem, parent⟩ := List.mem_filter.1 ht
      rw [← name, Keyed.find?_of_mem mem, Option.some_inj] at hs
      exact hs ▸ eq_of_beq parent
    · intro parent
      have mem := (Keyed.find?_eq_some_iff.1 hs).1
      exact ⟨s, List.mem_filter.2 ⟨mem, beq_iff_eq.2 parent⟩, rfl⟩
  unfold children
  rw [Keyed.mem_toList_ofList, List.mem_append, hb, linked]
  rfl

theorem filterMap_ite_eq {β : Type} {l : List String} (nodup : l.Nodup) (k : String)
    (o : Option β) :
    l.filterMap (fun a => if a = k then o else none) = if k ∈ l then o.toList else [] := by
  induction l with
  | nil => rfl
  | cons a l ih =>
    obtain ⟨fresh, nodup⟩ := List.nodup_cons.1 nodup
    rcases eq_or_ne a k with rfl | other
    · have rest : l.filterMap (fun b => if b = a then o else none) = [] := by
        rw [ih nodup, if_neg fresh]
      rw [List.filterMap_cons, rest, if_pos rfl, if_pos List.mem_cons_self]
      cases o <;> rfl
    · simp only [List.filterMap_cons, if_neg other, ih nodup, List.mem_cons, other.symm, false_or]

theorem find?_bind_tagOn (hs : r.find? s.name = some s) (d : Discriminator) (b : Schema)
    (p : Property) (name : String) :
    (r.find? name).bind (fun child =>
      (TagAssignment.ofChild d b child).bind (TagAssignment.tagOn s.name p)) =
        if name = s.name then if p.isNamed d.propertyName then d.tagOf b s else none else none := by
  rcases eq_or_ne name s.name with rfl | other
  · rw [hs, if_pos rfl, Option.bind_some, TagAssignment.ofChild]
    cases d.tagOf b s <;> simp [TagAssignment.tagOn]
  · rw [if_neg other]
    cases found : r.find? name with
    | none => rfl
    | some child =>
      have called : child.name ≠ s.name := Keyed.key_of_find? found ▸ other
      rw [Option.bind_some, TagAssignment.ofChild]
      cases d.tagOf b child <;> simp [TagAssignment.tagOn, called]

theorem filterMap_tagAssignments (hs : r.find? s.name = some s) (p : Property) (n : String) :
    (r.tagAssignments n).filterMap (TagAssignment.tagOn s.name p) =
      ((r.find? n).bind (·.label s p)).toList := by
  unfold tagAssignments base?
  cases hb : r.find? n with
  | none => rfl
  | some b =>
    rw [Option.bind_some, Option.bind_some, Schema.label]
    cases b.discriminator with
    | none => rfl
    | some d =>
      have child : s.name ∈ (r.children n).toList ↔
          (b.children.contains s.name || s.parent == some b.name) = true := by
        rw [mem_children hb hs, Bool.or_eq_true, List.contains_iff_mem, beq_iff_eq]
      have nodup : (r.children n).toList.Nodup := by simpa using (r.children n).nodup_keys
      show ((r.childSchemas n).filterMap (TagAssignment.ofChild d b)).filterMap
        (TagAssignment.tagOn s.name p) = Option.toList (if _ then _ else _)
      rw [childSchemas, List.filterMap_filterMap, List.filterMap_filterMap]
      simp only [find?_bind_tagOn hs, filterMap_ite_eq nodup, child, Bool.and_eq_true, ite_and]
      split
      · rfl
      · rfl

theorem tag_retag_tagAssignments (hs : r.find? s.name = some s) (order : List String) (p : Property) :
    (p.retag (order.flatMap r.tagAssignments) s.name).tag =
      (((order.filterMap r.find?).filterMap (·.label s p)).getLast?).or p.tag := by
  rw [Property.tag_retag, List.filterMap_flatMap, List.filterMap_filterMap,
    List.filterMap_eq_flatMap_toList]
  simp only [filterMap_tagAssignments hs]

end Registry

end ApiModel
