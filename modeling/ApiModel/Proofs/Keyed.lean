import Mathlib.Data.List.Forall2
import Mathlib.Data.List.Induction
import Mathlib.Data.List.Nodup
import ApiModel.Keyed

/-! Collections as finite maps. A collection is determined by the members that it finds, so two of
them are compared look-up by look-up; each operation has one equation for its look-ups. -/

namespace ApiModel

section Lists
variable {α : Type} {key : α → String} {l m : List α}

theorem find?_key_eq_some_iff (nodup : (l.map key).Nodup) {k : String} {a : α} :
    l.find? (key · == k) = some a ↔ a ∈ l ∧ key a = k := by
  constructor
  · intro h
    exact ⟨List.mem_of_find?_eq_some h, by simpa using List.find?_some h⟩
  · rintro ⟨ha, rfl⟩
    cases hf : l.find? (key · == key a) with
    | none => exact absurd (List.find?_eq_none.1 hf a ha) (by simp)
    | some b =>
      have hb : key b = key a := by simpa using List.find?_some hf
      rw [List.inj_on_of_nodup_map nodup (List.mem_of_find?_eq_some hf) ha hb]

theorem find?_key_perm (h : l.Perm m) (nodup : (l.map key).Nodup) (k : String) :
    l.find? (key · == k) = m.find? (key · == k) := by
  apply Option.ext
  intro a
  rw [find?_key_eq_some_iff nodup, find?_key_eq_some_iff ((h.map key).nodup nodup), h.mem_iff]

theorem nodup_map_concat {a : α} :
    ((l ++ [a]).map key).Nodup ↔ (l.map key).Nodup ∧ ∀ b ∈ l, key b ≠ key a := by
  rw [List.map_append, List.map_singleton, ← List.concat_eq_append, List.nodup_concat, and_comm]
  simp

/-- What does not hold of a list fails at the first entry up to which it fails. -/
theorem exists_first_failing {P : List α → Prop} (nil : P []) (h : ¬ P l) :
    ∃ before a after, l = before ++ a :: after ∧ P before ∧ ¬ P (before ++ [a]) := by
  induction l using List.reverseRecOn with
  | nil => exact absurd nil h
  | append_singleton l a ih =>
    by_cases hl : P l
    · exact ⟨l, a, [], rfl, hl, h⟩
    · obtain ⟨before, b, after, rfl, holds, fails⟩ := ih hl
      refine ⟨before, b, after ++ [a], ?_, holds, fails⟩
      rw [List.append_assoc, List.cons_append]

theorem exists_mem_of_forall₂ {β : Type} {R : α → β → Prop} {m : List β}
    (h : List.Forall₂ R l m) : ∀ a ∈ l, ∃ b ∈ m, R a b := by
  induction h with
  | nil => exact fun _ h => (List.not_mem_nil h).elim
  | cons head _ ih =>
    intro a ha
    rcases List.mem_cons.1 ha with rfl | ha
    · exact ⟨_, List.mem_cons_self, head⟩
    · obtain ⟨b, hb, rel⟩ := ih a ha
      exact ⟨b, List.mem_cons_of_mem _ hb, rel⟩

end Lists

namespace Keyed

variable {α : Type} {key : α → String} {s t : Keyed α key}

theorem nodup_keys (s : Keyed α key) : (s.toList.map key).Nodup :=
  s.ascending.imp Std.ne_of_lt

theorem find?_eq_some_iff {k : String} {a : α} : s.find? k = some a ↔ a ∈ s.toList ∧ key a = k :=
  find?_key_eq_some_iff s.nodup_keys

theorem key_of_find? {k : String} {a : α} (h : s.find? k = some a) : key a = k :=
  (find?_eq_some_iff.1 h).2

theorem find?_of_mem {a : α} (h : a ∈ s.toList) : s.find? (key a) = some a :=
  find?_eq_some_iff.2 ⟨h, rfl⟩

theorem contains_iff {k : String} : s.contains k = true ↔ ∃ a, s.find? k = some a := by
  rw [contains, Option.isSome_iff_exists]

theorem find?_eq_none_iff {k : String} : s.find? k = none ↔ s.contains k = false := by
  rw [contains, Option.isSome_eq_false_iff, Option.isNone_iff_eq_none]

theorem contains_iff_mem_keys {k : String} : s.contains k = true ↔ k ∈ s.toList.map key := by
  simp only [contains_iff, find?_eq_some_iff, List.mem_map]

theorem eq_of_perm (h : s.toList.Perm t.toList) : s = t := by
  have hs : s.toList.Pairwise fun a b => key a < key b := List.pairwise_map.1 s.ascending
  have ht : t.toList.Pairwise fun a b => key a < key b := List.pairwise_map.1 t.ascending
  have asymm : ∀ a b, a ∈ s.toList → b ∈ t.toList → key a < key b → key b < key a → a = b :=
    fun _ _ _ _ lt gt => (String.lt_asymm lt gt).elim
  exact ext (h.eq_of_pairwise asymm hs ht)

theorem ext_find? (h : ∀ k, s.find? k = t.find? k) : s = t := by
  apply eq_of_perm
  rw [List.perm_ext_iff_of_nodup (.of_map key s.nodup_keys) (.of_map key t.nodup_keys)]
  intro a
  constructor
  · intro ha
    exact (find?_eq_some_iff.1 (h (key a) ▸ find?_of_mem ha)).1
  · intro ha
    exact (find?_eq_some_iff.1 (h (key a) ▸ find?_of_mem ha)).1

@[simp] theorem toList_map (f : α → α) (h : ∀ a, key (f a) = key a) (s : Keyed α key) :
    (s.map f h).toList = s.toList.map f := rfl

@[simp] theorem find?_map (f : α → α) (h : ∀ a, key (f a) = key a) (s : Keyed α key) (k : String) :
    (s.map f h).find? k = (s.find? k).map f := by
  simp only [find?, map, List.find?_map, Function.comp_def, h]

theorem toList_map_eq {f : α → α} (hf : ∀ a, key (f a) = key a)
    (h : ∀ k, (s.find? k).map f = (t.find? k).map f) : s.toList.map f = t.toList.map f := by
  have maps : s.map f hf = t.map f hf := by
    apply ext_find?
    intro k
    rw [find?_map, find?_map, h]
  rw [← toList_map f hf, maps, toList_map]

theorem find?_update {f : α → α} (h : ∀ a, key (f a) = key a) (s : Keyed α key) (k l : String) :
    (s.update k f).find? l = if k = l then (s.find? l).map f else s.find? l := by
  unfold update
  split
  next hs =>
    split
    next eq => rw [← eq, hs, Option.map_none]
    next => rfl
  next a hs =>
    have hk : key (f a) = k := (h a).trans (key_of_find? hs)
    rw [find?_put, hk]
    split
    next eq => rw [← eq, hs, Option.map_some]
    next => rfl

theorem perm_put {a : α} (h : s.contains (key a) = false) :
    (s.put a).toList.Perm (a :: s.toList) := by
  have fresh : key a ∉ s.toList.map key := by
    rw [← contains_iff_mem_keys, h]
    exact Bool.false_ne_true
  rw [List.perm_ext_iff_of_nodup (.of_map key (s.put a).nodup_keys)
    (.of_map key (l := a :: s.toList) (List.nodup_cons.2 ⟨fresh, s.nodup_keys⟩))]
  intro b
  have hb : b ∈ (s.put a).toList ↔ (s.put a).find? (key b) = some b :=
    (find?_eq_some_iff.trans (and_iff_left rfl)).symm
  rw [hb, find?_put, List.mem_cons]
  split
  next eq =>
    have : b ∉ s.toList := fun mem => fresh (eq ▸ List.mem_map_of_mem mem)
    rw [or_iff_left this, Option.some_inj, eq_comm]
  next ne =>
    have : b ≠ a := fun eq => ne (congrArg key eq.symm)
    rw [or_iff_right this, find?_eq_some_iff, and_iff_left rfl]

theorem find?_foldl_put (l : List α) (s : Keyed α key) (k : String) :
    (l.foldl put s).find? k = (l.reverse.find? (key · == k)).or (s.find? k) := by
  induction l generalizing s with
  | nil => rfl
  | cons a l ih =>
    rw [List.foldl_cons, ih, find?_put, List.reverse_cons, List.find?_append, Option.or_assoc]
    congr 1
    by_cases h : key a = k
    · simp [h]
    · simp [h]

theorem ofList_toList (s : Keyed α key) : Keyed.ofList s.toList = s := by
  apply ext_find?
  intro k
  have found : s.toList.reverse.find? (key · == k) = s.find? k :=
    (find?_key_perm s.toList.reverse_perm.symm s.nodup_keys k).symm
  have nothing : (∅ : Keyed α key).find? k = none := rfl
  rw [Keyed.ofList, find?_foldl_put, found, nothing, Option.or_none]

theorem exists_perm {l : List α} (nodup : (l.map key).Nodup) :
    ∃ s : Keyed α key, s.toList.Perm l := by
  induction l with
  | nil => exact ⟨∅, .refl _⟩
  | cons a l ih =>
    obtain ⟨fresh, nodup⟩ := List.nodup_cons.1 nodup
    obtain ⟨s, perm⟩ := ih nodup
    have new : s.contains (key a) = false := by
      rw [← Bool.not_eq_true, contains_iff_mem_keys, (perm.map key).mem_iff]
      exact fresh
    exact ⟨s.put a, (perm_put new).trans (perm.cons a)⟩

theorem putAll_perm {l m : List String} (h : l.Perm m) (s : NameSet) : s.putAll l = s.putAll m := by
  refine h.foldl_eq' (fun a _ b _ t => ext_find? fun k => ?_) s
  rw [find?_put, find?_put, find?_put, find?_put]
  by_cases ha : id a = k <;> by_cases hb : id b = k <;> simp_all

theorem mem_toList_putAll {s : NameSet} {l : List String} {k : String} :
    k ∈ (s.putAll l).toList ↔ k ∈ s.toList ∨ k ∈ l := by
  have keys (t : NameSet) : k ∈ t.toList ↔ t.contains k = true := by
    rw [contains_iff_mem_keys, List.map_id]
  have put : (s.putAll l).contains k = true ↔ k ∈ l ∨ s.contains k = true := by
    rw [contains, putAll, find?_foldl_put, Option.isSome_or, Bool.or_eq_true, List.find?_isSome]
    simp only [List.mem_reverse, id, beq_iff_eq, exists_eq_right, contains]
  rw [keys, keys, put, or_comm]

theorem mem_toList_ofList {l : List String} {k : String} :
    k ∈ (Keyed.ofList l : NameSet).toList ↔ k ∈ l := by
  have filled := mem_toList_putAll (s := ∅) (l := l) (k := k)
  have nothing : (∅ : NameSet).toList = [] := rfl
  rwa [nothing, or_iff_right List.not_mem_nil] at filled

theorem mem_toList_erase {s : NameSet} {k l : String} :
    k ∈ (s.erase l).toList ↔ k ≠ l ∧ k ∈ s.toList := by
  rw [erase, toList_filter, List.mem_filter, and_comm]
  simp only [id, bne_iff_ne]

end Keyed

end ApiModel
