import Mathlib.Data.String.Basic
import ApiModel.Proofs.Property.Distinct
import ApiModel.Proofs.StableSort

/-! The order in which properties are shown. The second of the two stable sorts keeps the order of
the first within a rank, so a list with distinct names has only one sorted form. -/

namespace ApiModel

namespace Property

variable {l m : List Property}

def ShownBefore (p q : Property) : Prop := p.rank < q.rank ∨ p.rank = q.rank ∧ p.name ≤ q.name

theorem sort_pairwise (l : List Property) : (sort l).Pairwise ShownBefore := by
  have ascending := (stablySorted_sortBy (fun p : Property => toLex (p.rank, p.name)) l).ascending
  rw [← sortBy_sortBy] at ascending
  exact ascending.imp Prod.Lex.toLex_le_toLex.1

theorem ShownBefore.name_eq {p q : Property} (pq : ShownBefore p q) (qp : ShownBefore q p) :
    p.name = q.name := by
  rcases pq with lt | ⟨_, le⟩ <;> rcases qp with gt | ⟨eq, ge⟩
  · omega
  · omega
  · omega
  · exact String.le_antisymm le ge

theorem eq_sort (h : DistinctNames l) (lm : m.Perm l) (sorted : m.Pairwise ShownBefore) :
    m = sort l := by
  have perm := lm.trans (sort_perm l).symm
  refine perm.eq_of_pairwise ?_ sorted (sort_pairwise l)
  intro p q hp hq pq qp
  exact (h.perm lm.symm).eq hp (perm.mem_iff.2 hq) (pq.name_eq qp)

theorem sort_eq_of_perm (h : DistinctNames l) (lm : l.Perm m) : sort l = sort m :=
  eq_sort (h.perm lm) ((sort_perm l).trans lm) (sort_pairwise l)

theorem sort_filter (h : DistinctNames l) (p : Property → Bool) :
    sort (l.filter p) = (sort l).filter p :=
  (eq_sort (h.filter p) ((sort_perm l).filter p) ((sort_pairwise l).filter p)).symm

/-- What decides where a property is shown; of the components the first that differs counts. -/
def sortKey (p : Property) : Bool ×ₗ Bool ×ₗ String :=
  toLex (p.isNullable, toLex (p.hasDefault, p.name))

theorem sort_eq_sortBy (l : List Property) : sort l = sortBy sortKey l := by
  have ranked (p : Property) :
      p.rank = (if p.isNullable then 2 else 0) + (if p.hasDefault then 1 else 0) := rfl
  exact sortBy_rank_sortBy ranked name l

theorem ShownBefore.sortKey_lt {p q : Property} (h : ShownBefore p q) (name : p.name ≠ q.name) :
    p.sortKey < q.sortKey := by
  have later : p.name ≤ q.name → p.name < q.name := fun le => lt_of_le_of_ne le name
  rw [ShownBefore, rank, rank] at h
  simp only [sortKey, Prod.Lex.toLex_lt_toLex]
  cases hp : p.isNullable <;> cases hq : q.isNullable <;> cases dp : p.hasDefault <;>
    cases dq : q.hasDefault <;> simp_all

/-- No name stands twice in the list, and each entry stands where its key places it. -/
structure InOrder (l : List Property) : Prop where
  distinct : DistinctNames l
  ascending : l.Pairwise fun p q => p.sortKey < q.sortKey

theorem InOrder.sublist (h : InOrder l) (ml : m.Sublist l) : InOrder m :=
  ⟨h.distinct.sublist ml, h.ascending.sublist ml⟩

theorem InOrder.map (h : InOrder l) {f : Property → Property} (name : ∀ p, (f p).name = p.name)
    (key : ∀ p, (f p).sortKey = p.sortKey) : InOrder (l.map f) := by
  refine ⟨h.distinct.map name, ?_⟩
  rw [List.pairwise_map]
  simpa only [key] using h.ascending

theorem inOrder_sort (h : DistinctNames l) : InOrder (sort l) := by
  have distinct : DistinctNames (sort l) := h.perm (sort_perm l).symm
  have names : (sort l).Pairwise fun p q => p.name ≠ q.name := List.pairwise_map.1 distinct
  refine ⟨distinct, ((sort_pairwise l).and names).imp ?_⟩
  intro p q ⟨shown, name⟩
  exact shown.sortKey_lt name

end Property

end ApiModel
