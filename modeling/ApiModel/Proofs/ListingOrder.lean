import ApiModel.Proofs.Operation.Groups
import ApiModel.Proofs.Property.Sorting

/-! The two orders in which lists are shown. Each is reached by two sorts in turn, and each is the
one stable sort by a single key, so a list that is sorted stays as it is. -/

namespace ApiModel

theorem Property.sort_sort (l : List Property) : sort (sort l) = sort l := by
  have ascending := (stablySorted_sortBy sortKey l).ascending
  rw [sort_eq_sortBy, sort_eq_sortBy, sortBy_of_ascending ascending]

/-- Properties are listed by nullability, default and name, parameters by whether they are required,
default and data type; entries of one key keep the order in which they came. -/
theorem eq_sort_iff_stablySorted :
    (∀ l m : List Property, m = Property.sort l ↔ StablySorted Property.sortKey l m) ∧
      (∀ l : List Property,
        (Property.sort l).Perm l ∧ Property.sort (Property.sort l) = Property.sort l) ∧
      (∀ l m m' : List Property, Property.DistinctNames l → m.Perm l → m'.Perm l →
        Property.sort m = Property.sort m') ∧
      ∀ l m : List Parameter, m = Parameter.sort l ↔ StablySorted Parameter.sortKey l m := by
  refine ⟨fun l m => ?_, fun l => ⟨Property.sort_perm l, Property.sort_sort l⟩,
    fun l m m' distinct hm hm' => ?_, fun l m => ?_⟩
  · rw [Property.sort_eq_sortBy, eq_sortBy_iff]
  · exact Property.sort_eq_of_perm (distinct.perm hm.symm) (hm.trans hm'.symm)
  · rw [Parameter.sort_eq_sortBy, eq_sortBy_iff]

def petProperties : List Property := [
  (Property.plain "photo" "photo" "string").nullable,
  .plain "owner" "owner" "string",
  (Property.plain "kind" "kind" "string").withDefault "dog",
  .plain "tag" "tag" "string"]

theorem eq_sort_iff_stablySorted_petProperties :
    Property.DistinctNames petProperties ∧
      Property.sort petProperties.reverse = Property.sort petProperties ∧
      (Property.sort petProperties).map (·.name) = ["owner", "tag", "kind", "photo"] := by
  obtain ⟨_, _, permuted, _⟩ := eq_sort_iff_stablySorted
  have distinct : Property.DistinctNames petProperties := by
    unfold Property.DistinctNames
    decide
  refine ⟨distinct, permuted _ _ _ distinct (List.reverse_perm _) (.refl _), ?_⟩
  simp [Property.sort, List.mergeSort, List.MergeSort.Internal.splitInTwo, petProperties,
    Property.rank, Property.hasDefault, Property.plain, Property.nullable, Property.withDefault]

end ApiModel
