import ApiModel.Proofs.Document.Defaults
import ApiModel.Proofs.Registry.Labels

/-! The tags that the members of a model carry. In a tagged union the last base that labels a member
decides, in the order in which the schemas were normalized; a member that none labels has the tag
that its schema authored for it, if it declares it, and else none. -/

namespace ApiModel

def Schema.withoutTags (s : Schema) : Schema :=
  { s with view := { s.view with
      members := s.view.members.map (·.map Property.untagged), imports := ∅ } }

theorem Schema.tag_withSubtypeDefault (r : Registry) (s : Schema) (p : Property) :
    (s.withSubtypeDefault r p).tag = p.tag := by
  unfold withSubtypeDefault
  split <;> rfl

theorem Registry.withoutTags_assignTags (c : Config) (r : Registry) (order : List String)
    (n : String) : ((r.assignTags c order).find? n).map Schema.withoutTags =
      (r.find? n).map Schema.withoutTags := by
  cases h : c.profile.isTaggedUnion with
  | false => rw [assignTags_of_classical h]
  | true =>
    rw [find?_assignTags h, Option.map_map]
    apply Option.map_congr
    intro s _
    have members : (s.retag (order.flatMap r.tagAssignments)).view.members.map
        (·.map Property.untagged) = s.view.members.map (·.map Property.untagged) :=
      Members.map_untagged_retag _ s.name _
    show Schema.withoutTags (s.retag (order.flatMap r.tagAssignments)) = s.withoutTags
    unfold Schema.withoutTags
    rw [members]
    rfl

namespace Model

/-- The member `e` of `s` has the tag that `s` authors for it, if `s` declares it, and else none. -/
structure AuthoredTag (m : Model) (s : Schema) (e : Property) : Prop where
  declared : ∀ p ∈ s.properties, p.name = e.name → ¬ m.Redeclares s p → e.tag = p.tag
  received : ¬ m.Declares s e.name → e.tag = none

theorem AuthoredTag.of_not_declares {m : Model} {s : Schema} {e : Property}
    (copied : ¬ m.Declares s e.name) (tag : e.tag = none) : m.AuthoredTag s e where
  declared p hp name kept := absurd ⟨p, hp, name, kept⟩ copied
  received _ := tag

/-- The last of the bases that labels the member `e` of `s` decides on its tag. -/
structure Tagged (m : Model) (bases : List Schema) (s : Schema) (e : Property) : Prop where
  labelled : ∀ before b after tag, bases = before ++ b :: after → b.Labels s e tag →
    (∀ b' ∈ after, ∀ t, ¬ b'.Labels s e t) → e.tag = some tag
  unlabelled : (∀ b ∈ bases, ∀ t, ¬ b.Labels s e t) → m.AuthoredTag s e

theorem Tagged.of_label {m : Model} {bases : List Schema} {s : Schema} {e : Property}
    {t : Option String} (tag : e.tag = ((bases.filterMap (·.label s e)).getLast?).or t)
    (authored : e.tag = t → m.AuthoredTag s e) : m.Tagged bases s e := by
  have silent {l : List Schema} (h : ∀ b ∈ l, ∀ t, ¬ b.Labels s e t) :
      l.filterMap (·.label s e) = [] := by
    rw [List.filterMap_eq_nil_iff]
    intro b hb
    rw [Option.eq_none_iff_forall_ne_some]
    intro t given
    exact h b hb t (Schema.label_eq_some_iff.1 given)
  constructor
  case labelled =>
    rintro before b after v rfl labels none
    have given : b.label s e = some v := Schema.label_eq_some_iff.2 labels
    have last : (before ++ b :: after).filterMap (·.label s e) =
        before.filterMap (·.label s e) ++ [v] := by
      simp only [List.filterMap_append, List.filterMap_cons, given, silent none]
    rw [tag, last, List.getLast?_append, List.getLast?_singleton, Option.some_or, Option.some_or]
  case unlabelled =>
    intro none
    rw [silent none] at tag
    exact authored tag

end Model

namespace Document

variable {c : Config} {d : Document} {m : Model} {r R : Registry} {as : List TagAssignment}
  {imports : String → List String} {s : Schema} {e q : Property}

namespace Outcome

variable (h : Outcome c d m r R as imports)
include h

theorem authoredTag_own (hs : s ∈ d.schemas) (mine : q ∈ s.ownMembers R) (name : e.name = q.name)
    (tag : e.tag = q.tag) : m.AuthoredTag s e := by
  have declared : m.Declares s e.name := by
    rw [h.declares_iff, name]
    exact Property.declares_iff.2 ⟨q, mine, rfl⟩
  obtain ⟨p₀, kept, rfl⟩ := List.mem_map.1 mine
  have hp₀ : p₀ ∈ s.properties := List.mem_of_mem_filter kept
  rw [Schema.name_withSubtypeDefault] at name
  rw [Schema.tag_withSubtypeDefault] at tag
  constructor
  case declared =>
    intro p hp same _
    have one : p = p₀ := (h.distinctNames hs).eq hp hp₀ (same.trans name)
    rw [tag, one]
  case received => exact fun absent => absurd declared absent

theorem authoredTag (hs : s ∈ d.schemas) (origin : q ∈ s.directMembers R ∨ q ∈ s.inheritedMembers R)
    (name : e.name = q.name) (tag : e.tag = q.tag) : m.AuthoredTag s e := by
  rcases Schema.own_or_received origin with mine | ⟨p, receives, new, rfl⟩
  · exact h.authoredTag_own hs mine name tag
  · have copied : ¬ m.Declares s e.name := by
      rw [h.declares_iff, name, Bool.not_eq_true]
      exact new
    exact .of_not_declares copied tag

theorem filterMap_label (order : List String) (s : Schema) (q : Property) :
    (order.filterMap m.schema?).filterMap (·.label s (q.retag as s.name)) =
      (order.filterMap R.find?).filterMap (·.label (s.normalize c R) q) := by
  have label (b : Schema) : (b.finish c.naming as imports).label s (q.retag as s.name) =
      b.label (s.normalize c R) q := by
    have named (x : String) : (q.retag as s.name).isNamed x = q.isNamed x :=
      Property.apply_retag (f := (·.isNamed x)) (fun _ => rfl) as s.name q
    unfold Schema.label
    simp only [named]
    rfl
  rw [List.filterMap_filterMap, List.filterMap_filterMap]
  apply List.filterMap_congr
  intro n _
  rw [h.schema?]
  cases R.find? n with
  | none => rfl
  | some b => exact label b

end Outcome

/-- In a tagged union the last base with a tag for a member decides on it, and else the tag is the
one that was authored; nothing but tags and imports is touched. -/
theorem normalize_tags (h : d.normalize c = .ok m) :
    (∃ r order, Registry.ofSchemas d.schemas = .ok r ∧ r.dependencyOrder = .ok order ∧
      d.EachBecomes m fun s t => ∀ l ∈ t.view.members.lists, ∀ e ∈ l,
        match c.profile with
        | .classical => m.AuthoredTag s e
        | .taggedUnion => m.Tagged (order.filterMap m.schema?) s e) ∧
      ∀ (c : Config) (r : Registry) (order : List String) (n : String),
        ((r.assignTags c order).find? n).map Schema.withoutTags =
          (r.find? n).map Schema.withoutTags := by
  refine ⟨?_, Registry.withoutTags_assignTags⟩
  obtain ⟨r, R, order, imports, plan, out⟩ := exists_outcome_assigned h
  refine ⟨r, order, out.admitted, plan, out.eachBecomes fun s hs l hl e he => ?_⟩
  obtain ⟨l₀, hl₀, q, hq, rfl⟩ := Schema.exists_of_mem_lists_finish hl he
  have origin := Schema.mem_direct_or_inherited_of_mem_lists l₀ hl₀ q hq
  have authored := out.authoredTag hs origin (Property.name_retag (R.assigned c order) s.name q)
  cases profile : c.profile with
  | classical =>
    have nothing : R.assigned c order = [] := by
      unfold Registry.assigned
      rw [profile]
      exact if_neg Bool.false_ne_true
    apply authored
    rw [nothing]
    rfl
  | taggedUnion =>
    have assigned : R.assigned c order = order.flatMap R.tagAssignments := by
      unfold Registry.assigned
      rw [profile]
      exact if_pos rfl
    have found : R.find? (s.normalize c R).name = some (s.normalize c R) := out.find? hs
    have decided := Registry.tag_retag_tagAssignments found order q
    rw [← assigned, ← out.filterMap_label] at decided
    exact Model.Tagged.of_label decided authored

def fleet : Document where
  schemas := [
    { ((Schema.named "Asset").withProperties [kind]).withDiscriminator "kind" [("asset", "Car")] with
      children := ["Car"] },
    ((Schema.named "Vehicle").withProperties [kind]).withDiscriminator "kind"
      [("auto", "Car"), ("car", "Car")],
    (Schema.named "Car").withParent "Vehicle"]

theorem normalize_tags_fleet : ∃ m, fleet.normalize { profile := .taggedUnion } = .ok m ∧
    (m.schema? "Car").map (·.view.members.all.map (·.tag)) = some [some "car"] ∧
    (∃ r order, Registry.ofSchemas fleet.schemas = .ok r ∧ r.dependencyOrder = .ok order ∧
      fleet.EachBecomes m fun s t => ∀ l ∈ t.view.members.lists, ∀ e ∈ l,
        m.Tagged (order.filterMap m.schema?) s e) ∧
      ∀ (c : Config) (r : Registry) (order : List String) (n : String),
        ((r.assignTags c order).find? n).map Schema.withoutTags =
          (r.find? n).map Schema.withoutTags := by
  obtain ⟨m, hm, shown⟩ := exists_normalize_of_any (d := fleet) (c := { profile := .taggedUnion })
    (P := fun m => decide ((m.schema? "Car").map (·.view.members.all.map (·.tag)) =
      some [some "car"])) (by decide +kernel)
  exact ⟨m, hm, of_decide_eq_true shown, normalize_tags hm⟩

end Document

end ApiModel
