import Mathlib.Data.String.Basic
import ApiModel.Proofs.Failure
import ApiModel.Proofs.Operation
import ApiModel.Proofs.StableSort

/-! The parameters of an operation by category. Every category is a part of the list of all of them,
in the order of that list, although each is selected before it is sorted. -/

namespace ApiModel

def Parameter.sortKey (p : Parameter) : Bool ×ₗ Bool ×ₗ String :=
  toLex (!p.isRequired, toLex (p.hasDefault, p.dataType))

theorem Parameter.sort_eq_sortBy (l : List Parameter) : sort l = sortBy sortKey l := by
  have ranked (p : Parameter) :
      p.rank = (if !p.isRequired then 2 else 0) + (if p.hasDefault then 1 else 0) := by
    unfold rank
    cases p.isRequired <;> rfl
  exact sortBy_rank_sortBy ranked dataType l

namespace ParameterGroups

def located (g : ParameterGroups) : Location → List Parameter
  | .path => g.path
  | .query => g.query
  | .header => g.header
  | .cookie => g.cookie
  | .body => g.body
  | .form => g.form

def lists (g : ParameterGroups) : List (List Parameter) :=
  [g.all, g.path, g.query, g.header, g.cookie, g.body, g.form, g.required, g.optional]

/-- The groups are the declared parameters, listed and divided. -/
structure Divides (g : ParameterGroups) (declared : List Parameter) : Prop where
  perm : g.all.Perm declared
  located : ∀ location, g.located location = g.all.filter (·.location == location)
  required : g.required = g.all.filter (·.isRequired)
  optional : g.optional = g.all.filter (!·.isRequired)
  ordered : ∀ l ∈ g.lists, l.Pairwise fun p q => p.sortKey ≤ q.sortKey
  ties : ∀ l ∈ g.lists, ∀ k, (l.filter (·.sortKey = k)).Sublist declared

variable {g : ParameterGroups} {l : List Parameter} {p : Parameter} {location : Location}

theorem mem_sort : p ∈ Parameter.sort l ↔ p ∈ l := by
  simp only [Parameter.sort, List.mem_mergeSort]

theorem sort_filter (P : Parameter → Bool) (l : List Parameter) :
    Parameter.sort (l.filter P) = (Parameter.sort l).filter P := by
  rw [Parameter.sort_eq_sortBy, Parameter.sort_eq_sortBy, sortBy_filter]

theorem located_ofList (l : List Parameter) (location : Location) :
    (ofList l).located location = Parameter.sort (l.filter (·.location == location)) := by
  cases location <;> rfl

theorem mem_all_ofList : p ∈ (ofList l).all ↔ p ∈ l := mem_sort

theorem mem_located_ofList : p ∈ (ofList l).located location ↔ p ∈ l ∧ p.location = location := by
  rw [located_ofList, mem_sort, List.mem_filter, beq_iff_eq]

theorem sublist_of_mem_lists
    (located : ∀ location, g.located location = g.all.filter (·.location == location))
    (required : g.required = g.all.filter (·.isRequired))
    (optional : g.optional = g.all.filter (!·.isRequired)) : ∀ l ∈ g.lists, l.Sublist g.all := by
  have at_ (location : Location) : (g.located location).Sublist g.all := by
    rw [located]
    exact List.filter_sublist
  intro l hl
  simp only [lists, List.mem_cons, List.not_mem_nil, or_false] at hl
  rcases hl with rfl | rfl | rfl | rfl | rfl | rfl | rfl | rfl | rfl
  · exact .refl _
  · exact at_ .path
  · exact at_ .query
  · exact at_ .header
  · exact at_ .cookie
  · exact at_ .body
  · exact at_ .form
  · exact required ▸ List.filter_sublist
  · exact optional ▸ List.filter_sublist

theorem divides_ofList (l : List Parameter) : (ofList l).Divides l := by
  have all : StablySorted Parameter.sortKey l (ofList l).all := by
    show StablySorted Parameter.sortKey l (Parameter.sort l)
    rw [Parameter.sort_eq_sortBy]
    exact stablySorted_sortBy Parameter.sortKey l
  have located (location : Location) : (ofList l).located location =
      (ofList l).all.filter (·.location == location) := by
    rw [located_ofList, sort_filter]
    rfl
  have required : (ofList l).required = (ofList l).all.filter (·.isRequired) := sort_filter _ l
  have optional : (ofList l).optional = (ofList l).all.filter (!·.isRequired) := sort_filter _ l
  have sub := sublist_of_mem_lists located required optional
  refine ⟨?_, located, required, optional, ?_, ?_⟩
  · show (Parameter.sort l).Perm l
    rw [Parameter.sort_eq_sortBy]
    exact sortBy_perm Parameter.sortKey l
  · exact fun m hm => all.ascending.sublist (sub m hm)
  · intro m hm k
    have tied := (sub m hm).filter (·.sortKey = k)
    rw [all.tied k] at tied
    exact tied.trans List.filter_sublist

theorem Divides.eq_of_all {g' : ParameterGroups} {l' : List Parameter} (h : g.Divides l)
    (h' : g'.Divides l') (all : g.all = g'.all) : g = g' := by
  have located (location : Location) : g.located location = g'.located location := by
    rw [h.located, h'.located, all]
  have required : g.required = g'.required := by rw [h.required, h'.required, all]
  have optional : g.optional = g'.optional := by rw [h.optional, h'.optional, all]
  have path := located .path
  have query := located .query
  have header := located .header
  have cookie := located .cookie
  have body := located .body
  have form := located .form
  cases g
  cases g'
  simp_all only [ParameterGroups.located]

theorem Divides.eq_ofList (h : g.Divides l) : g = ofList l := by
  refine h.eq_of_all (divides_ofList l) ?_
  show g.all = Parameter.sort l
  rw [Parameter.sort_eq_sortBy]
  refine StablySorted.eq_sortBy ⟨h.ordered g.all List.mem_cons_self, fun k => ?_⟩
  have sub := (h.ties g.all List.mem_cons_self k).filter (·.sortKey = k)
  rw [List.filter_filter] at sub
  simp only [Bool.and_self] at sub
  exact sub.eq_of_length (h.perm.filter _).length_eq

end ParameterGroups

namespace Operation

variable {c : Config} {op o : Operation}

theorem groups_of_normalize (h : op.normalize c = .ok o) :
    o.parameters = op.identified ∧ o.view.groups = .ofList op.identified := by
  obtain ⟨parts, _, rfl⟩ := normalize_eq_ok_iff.1 h
  exact ⟨rfl, rfl⟩

/-- The groups of a normalized operation divide its parameters, and no other groups do. -/
theorem normalize_groups (h : op.normalize c = .ok o) : o.view.groups.Divides o.parameters ∧
    ∀ g : ParameterGroups, g.Divides o.parameters → g = o.view.groups := by
  obtain ⟨parameters, groups⟩ := groups_of_normalize h
  rw [parameters, groups]
  exact ⟨ParameterGroups.divides_ofList op.identified, fun g hg => hg.eq_ofList⟩

def photos : Operation :=
  { plain "listPhotos" .get "/pets/\x7bpet_id\x7d/photos" with
    parameters := [
      { Parameter.plain "limit" .query "number" with defaultValue := some "20" },
      .plain "X-Trace-Id" .header "string",
      .plain "pet_id" .path "number",
      .plain "tag" .query "string",
      .plain "until" .query "number",
      .plain "after" .query "number"] }

theorem normalize_groups_photos : ∃ o, photos.normalize {} = .ok o ∧
    o.view.groups.all.map (·.name) = ["pet_id", "until", "after", "X-Trace-Id", "tag", "limit"] ∧
    o.view.groups.Divides o.parameters := by
  obtain ⟨o, h⟩ := Failure.of?_eq_none_iff.1
    (show Failure.of? (photos.normalize {}) = none by decide +kernel)
  refine ⟨o, h, ?_, (normalize_groups h).1⟩
  rw [(groups_of_normalize h).2]
  simp [ParameterGroups.ofList, Parameter.sort, List.mergeSort,
    List.MergeSort.Internal.splitInTwo, identified, Parameter.identified, photos, plain,
    Parameter.plain, Parameter.rank, Parameter.hasDefault]

end Operation

end ApiModel
