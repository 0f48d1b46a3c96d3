import ApiModel.Proofs.Failure
import ApiModel.Proofs.Property.Distinct
import ApiModel.Registry

/-! Which schemas go into a registry. A list of them goes in when the names of schemas and of the
properties within each are distinct, and then the registry holds them, in order of their names. If
not, the failure is that of the first schema with which they no longer are. -/

namespace ApiModel

open Property (DistinctNames)

theorem Schema.nameCollision?_go_eq_none_iff (s : Schema) {before ps : List Property} :
    nameCollision?.go s before ps = none ↔
      DistinctNames ps ∧ ∀ p ∈ ps, ∀ q ∈ before, q.name ≠ p.name := by
  induction ps generalizing before with
  | nil => simp [nameCollision?.go, DistinctNames]
  | cons p ps ih =>
    rw [nameCollision?.go]
    cases seen : before.find? (·.name == p.name) with
    | some q =>
      have hq : q.name = p.name := by simpa using List.find?_some seen
      have mem := List.mem_of_find?_eq_some seen
      constructor
      · intro h
        cases h
      · intro h
        exact absurd hq (h.2 p List.mem_cons_self q mem)
    | none =>
      have fresh : ∀ q ∈ before, q.name ≠ p.name := by simpa using List.find?_eq_none.1 seen
      rw [ih]
      constructor
      · rintro ⟨distinct, new⟩
        refine ⟨List.nodup_cons.2 ⟨fun mem => ?_, distinct⟩, fun q hq => ?_⟩
        · obtain ⟨q, hq, name⟩ := List.mem_map.1 mem
          exact new q hq p List.mem_cons_self name.symm
        · rcases List.mem_cons.1 hq with rfl | hq
          · exact fresh
          · exact fun b hb => new q hq b (List.mem_cons_of_mem _ hb)
      · rintro ⟨distinct, new⟩
        obtain ⟨first, distinct⟩ := List.nodup_cons.1 distinct
        refine ⟨distinct, fun q hq b hb => ?_⟩
        rcases List.mem_cons.1 hb with rfl | hb
        · exact fun name => first (List.mem_map.2 ⟨q, hq, name.symm⟩)
        · exact new q (List.mem_cons_of_mem _ hq) b hb

theorem Schema.nameCollision?_eq_none_iff (s : Schema) :
    s.nameCollision? = none ↔ DistinctNames s.properties := by
  rw [nameCollision?, nameCollision?_go_eq_none_iff]
  simp

def Schema.Collides (s : Schema) (f : Failure) : Prop :=
  ∃ before p after, s.properties = before ++ p :: after ∧ DistinctNames before ∧
    ∃ q ∈ before, q.name = p.name ∧ f = .nameCollision s.name p.name q.wireName p.wireName

theorem Schema.nameCollision?_go_append (s : Schema) {seen before : List Property}
    (distinct : DistinctNames before) (new : ∀ p ∈ before, ∀ q ∈ seen, q.name ≠ p.name)
    (ps : List Property) :
    nameCollision?.go s seen (before ++ ps) = nameCollision?.go s (before.reverse ++ seen) ps := by
  induction before generalizing seen with
  | nil => rfl
  | cons p before ih =>
    obtain ⟨first, distinct⟩ := List.nodup_cons.1 distinct
    obtain ⟨fresh, new⟩ := List.forall_mem_cons.1 new
    have unseen : seen.find? (·.name == p.name) = none := by simpa using fresh
    rw [List.cons_append, nameCollision?.go, unseen, List.reverse_cons, List.append_assoc]
    refine ih distinct fun q hq b hb => ?_
    rcases List.mem_cons.1 hb with rfl | hb
    · exact fun name => first (List.mem_map.2 ⟨q, hq, name.symm⟩)
    · exact new q hq b hb

theorem Schema.Collides.nameCollision?_eq {s : Schema} {f : Failure} (h : s.Collides f) :
    s.nameCollision? = some f := by
  obtain ⟨before, p, after, split, distinct, q, hq, name, rfl⟩ := h
  have reversed : DistinctNames before.reverse := distinct.perm before.reverse_perm.symm
  have found : before.reverse.find? (·.name == p.name) = some q :=
    (find?_key_eq_some_iff reversed).2 ⟨List.mem_reverse.2 hq, name⟩
  rw [nameCollision?, split, nameCollision?_go_append s distinct (by simp), List.append_nil,
    nameCollision?.go, found]

theorem Schema.exists_collides {s : Schema} (h : ¬ DistinctNames s.properties) :
    ∃ f, s.Collides f := by
  obtain ⟨before, p, after, split, distinct, fails⟩ :=
    exists_first_failing (P := DistinctNames) List.nodup_nil h
  have repeated : ∃ q ∈ before, q.name = p.name := by
    by_contra fresh
    exact fails (nodup_map_concat.2 ⟨distinct, fun q hq name => fresh ⟨q, hq, name⟩⟩)
  obtain ⟨q, hq, name⟩ := repeated
  exact ⟨_, before, p, after, split, distinct, q, hq, name, rfl⟩

namespace Registry

variable {r t : Registry} {s : Schema} {schemas : List Schema}

theorem insert_eq_ok_iff : r.insert s = .ok t ↔
    DistinctNames s.properties ∧ r.contains s.name = false ∧ r.put s = t := by
  rw [← Schema.nameCollision?_eq_none_iff, insert]
  cases s.nameCollision? with
  | some failure => simp
  | none =>
    cases h : r.contains s.name <;> simp

theorem foldlM_insert_eq_ok_iff : schemas.foldlM insert r = .ok t ↔
    (∀ s ∈ schemas, DistinctNames s.properties) ∧
      ((schemas ++ r.toList).map (·.name)).Nodup ∧ t.toList.Perm (schemas ++ r.toList) := by
  induction schemas generalizing r with
  | nil =>
    show Except.ok r = .ok t ↔ _
    constructor
    · intro h
      cases h
      exact ⟨fun _ h => (List.not_mem_nil h).elim, t.nodup_keys, .refl _⟩
    · rintro ⟨_, _, perm⟩
      rw [Keyed.eq_of_perm perm]
  | cons s schemas ih =>
    rw [List.foldlM_cons]
    by_cases fits : DistinctNames s.properties ∧ r.contains s.name = false
    · have perm : (schemas ++ (r.put s).toList).Perm (s :: schemas ++ r.toList) :=
        ((Keyed.perm_put fits.2).append_left schemas).trans List.perm_middle
      rw [insert_eq_ok_iff.2 ⟨fits.1, fits.2, rfl⟩]
      show schemas.foldlM insert (r.put s) = .ok t ↔ _
      rw [ih, List.forall_mem_cons, and_iff_right fits.1, (perm.map _).nodup_iff]
      exact and_congr_right fun _ => and_congr_right fun _ =>
        ⟨fun h => h.trans perm, fun h => h.trans perm.symm⟩
    · constructor
      · intro h
        cases hs : r.insert s with
        | error failure => rw [hs] at h; cases h
        | ok u =>
          obtain ⟨distinct, new, _⟩ := insert_eq_ok_iff.1 hs
          exact absurd ⟨distinct, new⟩ fits
      · rintro ⟨distinct, nodup, _⟩
        refine absurd ⟨distinct s List.mem_cons_self, ?_⟩ fits
        rw [← Bool.not_eq_true, Keyed.contains_iff_mem_keys]
        intro known
        refine (List.nodup_cons.1 nodup).1 ?_
        show s.name ∈ (schemas ++ r.toList).map (·.name)
        rw [List.map_append]
        exact List.mem_append_right _ known

theorem ofSchemas_eq_ok_iff : ofSchemas schemas = .ok r ↔
    (∀ s ∈ schemas, DistinctNames s.properties) ∧ (schemas.map (·.name)).Nodup ∧
      r.toList.Perm schemas := by
  have none : (∅ : Registry).toList = [] := rfl
  rw [ofSchemas, foldlM_insert_eq_ok_iff, none, List.append_nil]

structure Admits (schemas : List Schema) : Prop where
  distinctSchemas : (schemas.map (·.name)).Nodup
  distinctMembers : ∀ s ∈ schemas, DistinctNames s.properties

theorem exists_ofSchemas_iff : (∃ r, ofSchemas schemas = .ok r) ↔ Admits schemas := by
  constructor
  · intro ⟨r, hr⟩
    obtain ⟨members, schemas, _⟩ := ofSchemas_eq_ok_iff.1 hr
    exact ⟨schemas, members⟩
  · intro h
    obtain ⟨r, perm⟩ := Keyed.exists_perm h.distinctSchemas
    exact ⟨r, ofSchemas_eq_ok_iff.2 ⟨h.distinctMembers, h.distinctSchemas, perm⟩⟩

/-- What is wrong with the first schema that cannot go in after those before it. -/
inductive Refuses (schemas : List Schema) : Failure → Prop
  | collision {before after : List Schema} {s : Schema} {f : Failure}
      (split : schemas = before ++ s :: after) (admitted : Admits before)
      (collides : s.Collides f) : Refuses schemas f
  | duplicate {before after : List Schema} {s : Schema}
      (split : schemas = before ++ s :: after) (admitted : Admits before)
      (distinct : DistinctNames s.properties) (known : ∃ t ∈ before, t.name = s.name) :
      Refuses schemas (.duplicateSchema s.name)

theorem ofSchemas_eq_error {before : List Schema} {f : Failure} (hr : ofSchemas before = .ok r)
    (hs : r.insert s = .error f) (after : List Schema) :
    ofSchemas (before ++ s :: after) = .error f := by
  unfold ofSchemas at hr ⊢
  rw [List.foldlM_append, hr]
  show (s :: after).foldlM insert r = _
  rw [List.foldlM_cons, hs]
  rfl

theorem contains_of_ofSchemas (h : ofSchemas schemas = .ok r) (n : String) :
    r.contains n = schemas.any (·.name == n) := by
  obtain ⟨_, _, perm⟩ := ofSchemas_eq_ok_iff.1 h
  rw [Bool.eq_iff_iff, Keyed.contains_iff_mem_keys, (perm.map _).mem_iff, List.any_eq_true,
    List.mem_map]
  simp only [beq_iff_eq]

theorem Refuses.ofSchemas_eq {f : Failure} (h : Refuses schemas f) :
    ofSchemas schemas = .error f := by
  cases h with
  | @collision before after s _ split admitted collides =>
    obtain ⟨r, hr⟩ := exists_ofSchemas_iff.2 admitted
    rw [split]
    refine ofSchemas_eq_error hr ?_ after
    rw [insert, collides.nameCollision?_eq]
  | @duplicate before after s split admitted distinct known =>
    obtain ⟨r, hr⟩ := exists_ofSchemas_iff.2 admitted
    have held : r.contains s.name = true := by
      rw [contains_of_ofSchemas hr]
      simpa using known
    rw [split]
    refine ofSchemas_eq_error hr ?_ after
    rw [insert, (Schema.nameCollision?_eq_none_iff s).2 distinct]
    exact if_pos held

theorem exists_refuses (h : ¬ Admits schemas) : ∃ f, Refuses schemas f := by
  obtain ⟨before, s, after, split, admitted, fails⟩ :=
    exists_first_failing (P := Admits) ⟨List.nodup_nil, List.forall_mem_nil _⟩ h
  by_cases distinct : DistinctNames s.properties
  · by_cases known : ∃ t ∈ before, t.name = s.name
    · exact ⟨_, .duplicate split admitted distinct known⟩
    · refine absurd ⟨nodup_map_concat.2 ⟨admitted.distinctSchemas, ?_⟩, ?_⟩ fails
      · exact fun t ht name => known ⟨t, ht, name⟩
      · intro t ht
        rcases List.mem_append.1 ht with ht | ht
        · exact admitted.distinctMembers t ht
        · exact List.mem_singleton.1 ht ▸ distinct
  · obtain ⟨f, collides⟩ := Schema.exists_collides distinct
    exact ⟨f, .collision split admitted collides⟩

theorem ofSchemas_eq_error_iff {f : Failure} :
    ofSchemas schemas = .error f ↔ Refuses schemas f := by
  have total : Admits schemas ∨ ∃ f, Refuses schemas f :=
    or_iff_not_imp_left.2 exists_refuses
  exact (Failure.judged total exists_ofSchemas_iff.2 fun _ => Refuses.ofSchemas_eq).2 f

theorem ofSchemas_toList (h : ∀ s ∈ r.toList, DistinctNames s.properties) :
    ofSchemas r.toList = .ok r :=
  ofSchemas_eq_ok_iff.2 ⟨h, r.nodup_keys, .refl _⟩

end Registry

end ApiModel
