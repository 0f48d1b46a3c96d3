import ApiModel.Property
import ApiModel.Proofs.Keyed

/-! Lists of properties with distinct names, and the first definition of each name. What
`firstOfEachName` keeps is told by the look-up of names, which it leaves as it was. -/

namespace ApiModel.Property

variable {l m : List Property} {x : String}

def DistinctNames (l : List Property) : Prop := (l.map (·.name)).Nodup

theorem DistinctNames.perm (h : DistinctNames l) (lm : l.Perm m) : DistinctNames m :=
  (lm.map _).nodup h

theorem DistinctNames.sublist (h : DistinctNames l) (ml : m.Sublist l) : DistinctNames m :=
  List.Nodup.sublist (ml.map _) h

theorem DistinctNames.filter (h : DistinctNames l) (p : Property → Bool) :
    DistinctNames (l.filter p) := h.sublist List.filter_sublist

theorem DistinctNames.map (h : DistinctNames l) {f : Property → Property}
    (name : ∀ p, (f p).name = p.name) : DistinctNames (l.map f) := by
  simpa only [DistinctNames, List.map_map, Function.comp_def, name] using h

theorem DistinctNames.eq (h : DistinctNames l) {p q : Property} (hp : p ∈ l) (hq : q ∈ l)
    (name : p.name = q.name) : p = q := List.inj_on_of_nodup_map h hp hq name

theorem declares_iff : declares l x = true ↔ ∃ p ∈ l, p.name = x := by
  simp only [declares, List.any_eq_true, beq_iff_eq]

theorem declares_perm (h : l.Perm m) (x : String) : declares l x = declares m x := h.any_eq

theorem find?_name_eq_none_iff : l.find? (·.name == x) = none ↔ declares l x = false := by
  rw [List.find?_eq_none, declares, List.any_eq_false]

theorem find?_filter_name {f : String → Bool} (h : f x = true) (l : List Property) :
    (l.filter fun p => f p.name).find? (·.name == x) = l.find? (·.name == x) := by
  rw [List.find?_filter]
  congr 1
  funext p
  by_cases hp : p.name = x
  · simp [hp, h]
  · simp [hp]

theorem find?_filter_of_distinctNames (h : DistinctNames l) (p : Property → Bool) (x : String) :
    (l.filter p).find? (·.name == x) = (l.find? (·.name == x)).filter p := by
  apply Option.ext
  intro q
  rw [Option.filter_eq_some_iff, find?_key_eq_some_iff (h.filter p), find?_key_eq_some_iff h,
    List.mem_filter, and_right_comm]

theorem firstOfEachName_sublist (l : List Property) : (firstOfEachName l).Sublist l := by
  induction l with
  | nil => exact .slnil
  | cons p ps ih => exact (List.filter_sublist.trans ih).cons_cons p

theorem distinctNames_firstOfEachName (l : List Property) : DistinctNames (firstOfEachName l) := by
  induction l with
  | nil => exact List.nodup_nil
  | cons p ps ih =>
    refine List.nodup_cons.2 ⟨?_, DistinctNames.filter ih _⟩
    intro h
    obtain ⟨q, hq, name⟩ := List.mem_map.1 h
    simpa [name] using (List.mem_filter.1 hq).2

@[simp] theorem find?_firstOfEachName (l : List Property) (x : String) :
    (firstOfEachName l).find? (·.name == x) = l.find? (·.name == x) := by
  induction l with
  | nil => rfl
  | cons p ps ih =>
    rw [firstOfEachName, List.find?_cons, List.find?_cons]
    split
    · rfl
    next hp =>
      rw [List.find?_filter, ← ih]
      congr 1
      funext q
      by_cases hq : q.name = x
      · subst hq
        have : q.name ≠ p.name := fun h => by simp [h] at hp
        simp [this]
      · simp [hq]

@[simp] theorem declares_firstOfEachName (l : List Property) (x : String) :
    declares (firstOfEachName l) x = declares l x := by
  rw [Bool.eq_iff_iff, ← not_iff_not, Bool.not_eq_true, Bool.not_eq_true,
    ← find?_name_eq_none_iff, ← find?_name_eq_none_iff, find?_firstOfEachName]

theorem firstOfEachName_of_distinctNames (h : DistinctNames l) : firstOfEachName l = l := by
  induction l with
  | nil => rfl
  | cons p ps ih =>
    obtain ⟨fresh, hps⟩ := List.nodup_cons.1 h
    rw [firstOfEachName, ih hps, List.filter_eq_self.2]
    intro q hq
    have : q.name ≠ p.name := fun name => fresh (List.mem_map.2 ⟨q, hq, name⟩)
    simpa using this

theorem firstOfEachName_append (l m : List Property) : firstOfEachName (l ++ m) =
    firstOfEachName l ++ (firstOfEachName m).filter (fun q => !declares l q.name) := by
  induction l with
  | nil => simp [firstOfEachName, declares]
  | cons p ps ih =>
    rw [List.cons_append, firstOfEachName, ih, List.filter_append, List.filter_filter,
      firstOfEachName, List.cons_append]
    congr 2
    apply List.filter_congr
    intro q _
    simp only [declares, List.any_cons, Bool.not_or, bne, Bool.beq_comm]

theorem firstOfEachName_append_of_declared (h : ∀ q ∈ m, declares l q.name = true) :
    firstOfEachName (l ++ m) = firstOfEachName l := by
  rw [firstOfEachName_append, List.filter_eq_nil_iff.2, List.append_nil]
  intro q hq
  simp [h q ((firstOfEachName_sublist m).subset hq)]

theorem firstOfEachName_firstOfEachName_append (l m : List Property) :
    firstOfEachName (firstOfEachName l ++ m) = firstOfEachName (l ++ m) := by
  simp only [firstOfEachName_append, declares_firstOfEachName,
    firstOfEachName_of_distinctNames (distinctNames_firstOfEachName l)]

theorem firstOfEachName_perm (h : ∀ x, l.find? (·.name == x) = m.find? (·.name == x)) :
    (firstOfEachName l).Perm (firstOfEachName m) := by
  have nodup (l : List Property) : (firstOfEachName l).Nodup :=
    .of_map _ (distinctNames_firstOfEachName l)
  have mem (l : List Property) (p : Property) :
      p ∈ firstOfEachName l ↔ l.find? (·.name == p.name) = some p := by
    rw [← find?_firstOfEachName, find?_key_eq_some_iff (distinctNames_firstOfEachName l)]
    exact (and_iff_left rfl).symm
  rw [List.perm_ext_iff_of_nodup (nodup l) (nodup m)]
  intro p
  rw [mem, mem, h]

theorem firstOfEachName_map {f : Property → Property} (name : ∀ p, (f p).name = p.name)
    (l : List Property) : firstOfEachName (l.map f) = (firstOfEachName l).map f := by
  induction l with
  | nil => rfl
  | cons p ps ih =>
    rw [List.map_cons, firstOfEachName, ih, firstOfEachName, List.map_cons, List.filter_map]
    simp only [Function.comp_def, name]

theorem firstOfEachName_filter_name (keep : String → Bool) (l : List Property) :
    firstOfEachName (l.filter fun p => keep p.name) =
      (firstOfEachName l).filter fun p => keep p.name := by
  induction l with
  | nil => rfl
  | cons p ps ih =>
    rw [List.filter_cons, firstOfEachName, List.filter_cons]
    split
    · rw [firstOfEachName, ih, List.filter_comm]
    next out =>
      rw [ih, List.filter_filter]
      apply List.filter_congr
      intro q _
      by_cases name : q.name = p.name
      · simp [name, out]
      · simp [name]

theorem find?_eraseDups (p : Property → Bool) (l : List Property) :
    l.eraseDups.find? p = l.find? p := by
  -- The tail is filtered before the next step, so the induction is on the length.
  induction h : l.length using Nat.strongRecOn generalizing l with
  | ind n ih =>
    cases l with
    | nil => rfl
    | cons a as =>
      rw [List.eraseDups_cons, List.find?_cons, List.find?_cons]
      split
      · rfl
      next hp =>
        have shorter : (as.filter fun b => !b == a).length < n := by
          rw [← h, List.length_cons]
          exact Nat.lt_succ_of_le (List.length_filter_le _ _)
        rw [ih _ shorter _ rfl, List.find?_filter]
        congr 1
        funext b
        by_cases hb : b = a
        · simp [hb, hp]
        · simp [hb]

theorem firstOfEachName_eraseDups (l : List Property) :
    firstOfEachName l.eraseDups = firstOfEachName l := by
  induction h : l.length using Nat.strongRecOn generalizing l with
  | ind n ih =>
    cases l with
    | nil => rfl
    | cons a as =>
      have shorter : (as.filter fun b => !b == a).length < n := by
        rw [← h, List.length_cons]
        exact Nat.lt_succ_of_le (List.length_filter_le _ _)
      have others : (as.filter fun b => !b == a).filter (·.name != a.name) =
          as.filter (·.name != a.name) := by
        rw [List.filter_filter]
        apply List.filter_congr
        intro q _
        by_cases same : q = a
        · simp [same]
        · simp [same]
      rw [List.eraseDups_cons, firstOfEachName, ih _ shorter _ rfl, firstOfEachName,
        ← firstOfEachName_filter_name (· != a.name), others,
        firstOfEachName_filter_name (· != a.name)]

end ApiModel.Property
