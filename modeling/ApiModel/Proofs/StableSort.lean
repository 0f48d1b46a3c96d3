import Mathlib.Data.List.Sort
import Mathlib.Data.Prod.Lex

/-! Stable sorts by a key. A list in ascending order of its keys is determined by what it has under
each key, and a stable sort leaves that as it was. So sorting commutes with selecting, and two
sorts, one after the other, are one by both keys. -/

namespace ApiModel

variable {α κ μ : Type} [LinearOrder κ] [LinearOrder μ] {key : α → κ} {l m m' : List α}

def sortBy (key : α → κ) (l : List α) : List α := l.mergeSort fun a b => decide (key a ≤ key b)

theorem sortBy_perm (key : α → κ) (l : List α) : (sortBy key l).Perm l := List.mergeSort_perm _ _

/-- `m` is `l` in ascending order of the keys; under one key it has the order of `l`. -/
structure StablySorted (key : α → κ) (l m : List α) : Prop where
  ascending : m.Pairwise fun a b => key a ≤ key b
  tied : ∀ k, m.filter (key · = k) = l.filter (key · = k)

theorem filter_mergeSort {le : α → α → Bool} (trans : ∀ a b c, le a b → le b c → le a c)
    (total : ∀ a b, le a b || le b a) {p : α → Bool} {l : List α}
    (h : (l.filter p).Pairwise (fun a b => le a b)) :
    (l.mergeSort le).filter p = l.filter p := by
  have sub : ((l.filter p).filter p).Sublist ((l.mergeSort le).filter p) :=
    (List.sublist_mergeSort trans total h List.filter_sublist).filter p
  rw [List.filter_filter] at sub
  simp only [Bool.and_self] at sub
  exact (sub.eq_of_length ((List.mergeSort_perm l le).filter p).length_eq.symm).symm

theorem stablySorted_sortBy (key : α → κ) (l : List α) : StablySorted key l (sortBy key l) := by
  have trans (a b c : α) : decide (key a ≤ key b) → decide (key b ≤ key c) →
      decide (key a ≤ key c) := by
    simp only [decide_eq_true_eq]
    exact le_trans
  have total (a b : α) : (decide (key a ≤ key b) || decide (key b ≤ key a)) = true := by
    simpa using le_total (key a) (key b)
  refine ⟨(List.pairwise_mergeSort trans total l).imp of_decide_eq_true, fun k => ?_⟩
  apply filter_mergeSort trans total
  refine List.pairwise_of_forall_mem_list fun a ha b hb => ?_
  have key_a : key a = k := of_decide_eq_true (List.mem_filter.1 ha).2
  have key_b : key b = k := of_decide_eq_true (List.mem_filter.1 hb).2
  exact decide_eq_true (key_a.trans key_b.symm).le

theorem mem_iff_of_tied (tied : ∀ k, m.filter (key · = k) = m'.filter (key · = k)) (a : α) :
    a ∈ m ↔ a ∈ m' := by
  have same : (a ∈ m.filter (key · = key a)) = (a ∈ m'.filter (key · = key a)) := by rw [tied]
  simpa using same

theorem eq_of_ascending (hm : m.Pairwise fun a b => key a ≤ key b)
    (hm' : m'.Pairwise fun a b => key a ≤ key b)
    (tied : ∀ k, m.filter (key · = k) = m'.filter (key · = k)) : m = m' := by
  have mem := mem_iff_of_tied tied
  induction m generalizing m' with
  | nil =>
    have none : ∀ a, a ∉ m' := fun a ha => List.not_mem_nil ((mem a).2 ha)
    exact (List.eq_nil_iff_forall_not_mem.2 none).symm
  | cons a m ih =>
    cases m' with
    | nil => exact absurd ((mem a).1 List.mem_cons_self) List.not_mem_nil
    | cons b m' =>
      have le : key a ≤ key b := (List.mem_cons.1 ((mem b).2 List.mem_cons_self)).elim
        (fun eq => (congrArg key eq).ge) (List.rel_of_pairwise_cons hm)
      have ge : key b ≤ key a := (List.mem_cons.1 ((mem a).1 List.mem_cons_self)).elim
        (fun eq => (congrArg key eq).ge) (List.rel_of_pairwise_cons hm')
      have first := tied (key a)
      rw [List.filter_cons_of_pos (by simp), List.filter_cons_of_pos (by simp [le_antisymm ge le])]
        at first
      obtain ⟨rfl, _⟩ := List.cons.inj first
      have rest (k : κ) : m.filter (key · = k) = m'.filter (key · = k) := by
        have whole := tied k
        simp only [List.filter_cons] at whole
        split at whole
        · exact (List.cons.inj whole).2
        · exact whole
      rw [ih hm.of_cons hm'.of_cons rest (mem_iff_of_tied rest)]

theorem StablySorted.eq_sortBy (h : StablySorted key l m) : m = sortBy key l := by
  have sorted := stablySorted_sortBy key l
  exact eq_of_ascending h.ascending sorted.ascending fun k => (h.tied k).trans (sorted.tied k).symm

theorem eq_sortBy_iff : m = sortBy key l ↔ StablySorted key l m := by
  constructor
  · rintro rfl
    exact stablySorted_sortBy key l
  · exact StablySorted.eq_sortBy

theorem sortBy_of_ascending (h : l.Pairwise fun a b => key a ≤ key b) : sortBy key l = l :=
  (StablySorted.eq_sortBy ⟨h, fun _ => rfl⟩).symm

theorem sortBy_filter (key : α → κ) (p : α → Bool) (l : List α) :
    sortBy key (l.filter p) = (sortBy key l).filter p := by
  have sorted := stablySorted_sortBy key l
  refine (StablySorted.eq_sortBy ⟨sorted.ascending.sublist List.filter_sublist, fun k => ?_⟩).symm
  rw [List.filter_comm, sorted.tied k, List.filter_comm]

theorem sortBy_congr {key' : α → μ} (h : ∀ a b, key a ≤ key b ↔ key' a ≤ key' b) (l : List α) :
    sortBy key l = sortBy key' l := by
  unfold sortBy
  simp only [h]

/-- Of two sorts in turn the second decides, and the first where the second finds no difference. -/
theorem sortBy_sortBy (key : α → κ) (key' : α → μ) (l : List α) :
    sortBy key (sortBy key' l) = sortBy (fun a => toLex (key a, key' a)) l := by
  have first := stablySorted_sortBy key' l
  have second := stablySorted_sortBy key (sortBy key' l)
  apply StablySorted.eq_sortBy
  constructor
  case ascending =>
    rw [List.pairwise_iff_forall_sublist]
    intro a b ab
    have le : key a ≤ key b := List.pairwise_iff_forall_sublist.1 second.ascending ab
    rw [Prod.Lex.toLex_le_toLex]
    refine le.lt_or_eq.imp_right fun same => ⟨same, ?_⟩
    -- Under one key of the second sort the order is that of the first.
    have tied := ab.filter (key · = key a)
    have second_tied := second.tied (key a)
    rw [second_tied, List.filter_eq_self.2 (by simpa using same.symm)] at tied
    exact List.pairwise_iff_forall_sublist.1 first.ascending (tied.trans List.filter_sublist)
  case tied =>
    intro k
    have both (n : List α) : n.filter (fun a => toLex (key a, key' a) = k) =
        (n.filter (key' · = (ofLex k).2)).filter (key · = (ofLex k).1) := by
      rw [List.filter_filter]
      apply List.filter_congr
      intro a _
      rw [← Bool.decide_and]
      exact decide_eq_decide.2 Prod.ext_iff
    rw [both, List.filter_comm, second.tied, List.filter_comm, first.tied, ← both]

theorem sortBy_rank_sortBy {rank : α → Nat} {major minor : α → Bool}
    (ranked : ∀ a, rank a = (if major a then 2 else 0) + (if minor a then 1 else 0))
    (text : α → μ) (l : List α) : sortBy rank (sortBy text l) =
      sortBy (fun a => toLex (major a, toLex (minor a, text a))) l := by
  have key (a b : α) : toLex (rank a, text a) ≤ toLex (rank b, text b) ↔
      toLex (major a, toLex (minor a, text a)) ≤ toLex (major b, toLex (minor b, text b)) := by
    simp only [ranked, Prod.Lex.toLex_le_toLex]
    cases major a <;> cases major b <;> cases minor a <;> cases minor b <;> simp
  rw [sortBy_sortBy, sortBy_congr key]

end ApiModel
