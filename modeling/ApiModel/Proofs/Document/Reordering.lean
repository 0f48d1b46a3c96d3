import Mathlib.Data.List.Perm.Basic
import ApiModel.Proofs.Document
import ApiModel.Proofs.Registry.Reordering

/-! Documents that are authored in another order. Neither whether a document normalizes nor what it
becomes depends on the order of its schemas, nor on the order of properties and children in them. -/

namespace ApiModel

def Model.withoutEchoes (m : Model) : Model :=
  { m with schemas := m.schemas.map Schema.withoutEchoes }

theorem Schema.map_name_eq {l m : List Schema} (h : List.Forall₂ Reordered l m) :
    l.map (·.name) = m.map (·.name) := by
  induction h with
  | nil => rfl
  | cons head _ ih => rw [List.map_cons, List.map_cons, head.name, ih]

namespace Document

/-- The schemas of `e` are those of `d` in some order, each authored in some order. -/
structure Reordered (d e : Document) : Prop where
  schemas : ∃ l, d.schemas.Perm l ∧ List.Forall₂ Schema.Reordered l e.schemas
  operations : d.operations = e.operations

namespace Reordered

variable {d e : Document} {c : Config} {m : Model}

theorem symm (h : d.Reordered e) : e.Reordered d := by
  obtain ⟨l, perm, each⟩ := h.schemas
  obtain ⟨l', each', perm'⟩ := List.perm_comp_forall₂ perm each
  refine ⟨⟨l', perm'.symm, ?_⟩, h.operations.symm⟩
  exact (each'.imp fun _ _ same => same.symm).flip

theorem ofSchemas (h : d.Reordered e) {r : Registry} (hr : Registry.ofSchemas d.schemas = .ok r) :
    ∃ t, Registry.ofSchemas e.schemas = .ok t ∧ r.Reordered t := by
  obtain ⟨l, perm, each⟩ := h.schemas
  obtain ⟨distinct, nodup, held⟩ := Registry.ofSchemas_eq_ok_iff.1 hr
  have names : (l.map (·.name)).Nodup := (perm.map _).nodup nodup
  rw [Schema.map_name_eq each] at names
  obtain ⟨t, ht⟩ := Keyed.exists_perm names
  have right : ∀ s ∈ r.toList, ∃ u ∈ t.toList, s.Reordered u := by
    intro s hs
    obtain ⟨u, hu, same⟩ := exists_mem_of_forall₂ each s (perm.mem_iff.1 (held.mem_iff.1 hs))
    exact ⟨u, ht.mem_iff.2 hu, same⟩
  have left : ∀ u ∈ t.toList, ∃ s ∈ r.toList, s.Reordered u := by
    intro u hu
    obtain ⟨s, hs, same⟩ := exists_mem_of_forall₂ each.flip u (ht.mem_iff.1 hu)
    exact ⟨s, held.mem_iff.2 (perm.mem_iff.2 hs), same⟩
  refine ⟨t, Registry.ofSchemas_eq_ok_iff.2 ⟨fun u hu => ?_, names, ht⟩,
    Registry.reordered_of_mem right left⟩
  obtain ⟨s, hs, same⟩ := left u (ht.mem_iff.2 hu)
  exact (distinct s (held.mem_iff.1 hs)).perm same.properties

theorem normalize (h : d.Reordered e) (hm : d.normalize c = .ok m) :
    ∃ n, e.normalize c = .ok n ∧ m.withoutEchoes = n.withoutEchoes := by
  obtain ⟨r, R, ops, hr, hR, ho, rfl⟩ := normalize_eq_ok_iff.1 hm
  obtain ⟨t, ht, same⟩ := h.ofSchemas hr
  obtain ⟨distinct, _, perm⟩ := Registry.ofSchemas_eq_ok_iff.1 hr
  obtain ⟨T, hT, same⟩ := same.normalize (fun s hs => distinct s (perm.mem_iff.1 hs)) hR
  refine ⟨_, normalize_eq_ok_iff.2 ⟨t, T, ops, ht, hT, h.operations ▸ ho, rfl⟩, ?_⟩
  have schemas : R.toList.map Schema.withoutEchoes = T.toList.map Schema.withoutEchoes :=
    Keyed.toList_map_eq (fun _ => rfl) (same.map_find? fun _ _ same => same.rest)
  simp only [Model.withoutEchoes, Model.ofParts, schemas]

end Reordered

/-- Authored order decides neither whether a document normalizes nor what it becomes. -/
theorem normalize_of_reordered {d e : Document} (h : d.Reordered e) (c : Config) :
    ((∃ m, d.normalize c = .ok m) ↔ ∃ n, e.normalize c = .ok n) ∧
      ∀ m n, d.normalize c = .ok m → e.normalize c = .ok n → m.withoutEchoes = n.withoutEchoes := by
  refine ⟨⟨?_, ?_⟩, fun m n hm hn => ?_⟩
  · rintro ⟨m, hm⟩
    obtain ⟨n, hn, _⟩ := h.normalize hm
    exact ⟨n, hn⟩
  · rintro ⟨n, hn⟩
    obtain ⟨m, hm, _⟩ := h.symm.normalize hn
    exact ⟨m, hm⟩
  · obtain ⟨n', hn', same⟩ := h.normalize hm
    rwa [← Except.ok.inj (hn'.symm.trans hn)]

def reversed (d : Document) : Document :=
  { d with schemas := (d.schemas.reverse).map fun s =>
      { s with properties := s.properties.reverse, children := s.children.reverse } }

theorem reordered_reversed (d : Document) : d.Reordered d.reversed := by
  refine ⟨⟨d.schemas.reverse, (List.reverse_perm _).symm, ?_⟩, rfl⟩
  rw [reversed, List.forall₂_map_right_iff, List.forall₂_same]
  intro s _
  exact ⟨(List.reverse_perm _).symm, (List.reverse_perm _).symm, rfl⟩

theorem normalize_of_reordered_zoo : ∃ m n, zoo.normalize {} = .ok m ∧
    zoo.reversed.normalize {} = .ok n ∧ m.withoutEchoes = n.withoutEchoes := by
  obtain ⟨succeed, same⟩ := normalize_of_reordered zoo.reordered_reversed {}
  obtain ⟨m, hm⟩ := exists_normalize_zoo {}
  obtain ⟨n, hn⟩ := succeed.1 ⟨m, hm⟩
  exact ⟨m, n, hm, hn, same m n hm hn⟩

end Document

end ApiModel
