import Mathlib.Logic.Relation
import ApiModel.Proofs.Document.Outcome
import ApiModel.Proofs.Registry.Provenance

/-! The names of the members that a schema has in the end. They are its own and those of the schemas
that it takes from, less what its alternatives take away. Without alternatives they are the names
that are authored anywhere along the links from the schema on. -/

namespace ApiModel

open Property (declares)

namespace Document

/-- `x` is the name of a property that an alternative of `s` has, and not the one that tells the
subtypes of `s` apart. -/
def Drops (d : Document) (s : Schema) (x : String) : Prop :=
  ∃ k ∈ s.composedFrom, k.kind ≠ .allOf ∧ k.name ≠ "Null" ∧ k.name ≠ s.name ∧
    ∃ u ∈ d.schemas, u.name = k.name ∧ ∃ p ∈ u.properties, s.discriminates p = false ∧ p.name = x

def Links (d : Document) (s u : Schema) : Prop := u ∈ d.schemas ∧ s.TakesFrom u.name

variable {c : Config} {d : Document} {m : Model} {r R : Registry} {as : List TagAssignment}
  {imports : String → List String} {s u : Schema} {x : String}

theorem declares_all_finish {n : Naming} :
    declares ((s.normalize c R).finish n as imports).view.members.all x = true ↔
      declares (Schema.members c R s).all x = true := by
  rw [Property.declares_iff, Property.declares_iff,
    Schema.exists_mem_all_finish_iff fun _ _ => by rw [Property.name_retag],
    Schema.exists_mem_all_normalize_iff]

namespace Outcome

variable (h : Outcome c d m r R as imports)
include h

theorem exists_receives_iff {P : Property → Prop} (tagless : ∀ as q name, P (q.retag as name) ↔ P q) :
    (∃ p, s.Receives m.schema? p ∧ P p) ↔ ∃ p, s.Receives R.find? p ∧ P p := by
  constructor
  · rintro ⟨p, ⟨n, t, takes, ht, hp⟩, Pp⟩
    obtain ⟨u, hu, rfl⟩ := Option.map_eq_some_iff.1 (h.schema? n ▸ ht)
    obtain ⟨q, hq, Pq⟩ := (Schema.exists_mem_all_finish_iff (tagless as)).1 ⟨p, hp, Pp⟩
    exact ⟨q, ⟨n, u, takes, hu, hq⟩, Pq⟩
  · rintro ⟨q, ⟨n, u, takes, hu, hq⟩, Pq⟩
    obtain ⟨p, hp, Pp⟩ := (Schema.exists_mem_all_finish_iff (tagless as)).2 ⟨q, hq, Pq⟩
    exact ⟨p, ⟨n, _, takes, (h.schema? n).trans (congrArg _ hu), hp⟩, Pp⟩

theorem mem_droppedNames : x ∈ Schema.droppedNames R s ↔ d.Drops s x := by
  have declared {n : String} {p : Property} :
      R.Declares n p ↔ ∃ u ∈ d.schemas, u.name = n ∧ p ∈ u.properties := by
    constructor
    · intro decl
      obtain ⟨u, hu, hp⟩ := h.settled.sameCore.declares decl
      obtain ⟨mem, name⟩ := Keyed.find?_eq_some_iff.1 hu
      exact ⟨u, h.mem_iff.1 mem, name, hp⟩
    · rintro ⟨u, hu, rfl, hp⟩
      exact h.settled.sameCore.symm.declares ⟨u, Keyed.find?_of_mem (h.mem_iff.2 hu), hp⟩
  rw [Schema.mem_droppedNames]
  constructor
  · rintro ⟨k, hk, p, decl, other, rfl⟩
    obtain ⟨u, hu, name, hp⟩ := declared.1 decl
    obtain ⟨mem, kind, notNull, notSelf⟩ := Schema.mem_alternatives.1 hk
    exact ⟨k, mem, kind, notNull, notSelf, u, hu, name, p, hp, other, rfl⟩
  · rintro ⟨k, mem, kind, notNull, notSelf, u, hu, name, p, hp, other, rfl⟩
    exact ⟨k, Schema.mem_alternatives.2 ⟨mem, kind, notNull, notSelf⟩, p,
      declared.2 ⟨u, hu, name, hp⟩, other, rfl⟩

theorem exists_receives_find?_iff : (∃ p, s.Receives R.find? p ∧ p.name = x) ↔
    ∃ u, d.Links s u ∧ declares (Schema.members c R u).all x = true := by
  simp only [Property.declares_iff, ← Schema.exists_mem_all_normalize_iff (c := c) (R := R)]
  constructor
  · rintro ⟨p, ⟨n, v, takes, hv, hp⟩, name⟩
    obtain ⟨u, hu, rfl⟩ := Option.map_eq_some_iff.1 (h.settled n ▸ hv)
    obtain ⟨mem, rfl⟩ := Keyed.find?_eq_some_iff.1 hu
    exact ⟨u, ⟨h.mem_iff.1 mem, takes⟩, p, hp, name⟩
  · rintro ⟨u, ⟨hu, takes⟩, p, hp, name⟩
    exact ⟨p, ⟨u.name, _, takes, h.find? hu, hp⟩, name⟩

theorem declares_all_iff_reachable (keeps : ∀ s ∈ d.schemas, ∀ x, ¬ d.Drops s x)
    (hs : s ∈ d.schemas) : declares (Schema.members c R s).all x = true ↔
      ∃ u, Relation.ReflTransGen d.Links s u ∧ declares u.properties x = true := by
  have step : ∀ s ∈ d.schemas, declares (Schema.members c R s).all x = true ↔
      declares s.properties x = true ∨
        ∃ u, d.Links s u ∧ declares (Schema.members c R u).all x = true := by
    intro s hs
    rw [Schema.declares_members_all, h.mem_droppedNames, and_iff_left (keeps s hs x),
      h.exists_receives_find?_iff]
  constructor
  · obtain ⟨order, plan⟩ := h.scheduled
    -- The links lead to what was normalized before, so the induction is along the schedule.
    have along := plan.induction (P := fun n => ∀ s ∈ d.schemas, s.name = n →
      declares (Schema.members c R s).all x = true →
        ∃ u, Relation.ReflTransGen d.Links s u ∧ declares u.properties x = true) ?_
    · exact along s (h.mem_iff.2 hs) s hs rfl
    intro v hv deps s hs name held
    obtain rfl : s = v := List.inj_on_of_nodup_map r.nodup_keys (h.mem_iff.2 hs) hv name
    rcases (step s hs).1 held with own | ⟨u, link, held⟩
    · exact ⟨s, .refl, own⟩
    · have known : r.contains u.name = true :=
        Keyed.contains_iff.2 ⟨u, Keyed.find?_of_mem (h.mem_iff.2 link.1)⟩
      obtain ⟨w, path, own⟩ :=
        deps u.name (Schema.mem_dependencies.2 link.2) known u link.1 rfl held
      exact ⟨w, .head link path, own⟩
  · rintro ⟨u, path, own⟩
    induction path using Relation.ReflTransGen.head_induction_on with
    | refl => exact (step u hs).2 (.inl own)
    | head link _ ih => exact (step _ hs).2 (.inr ⟨_, link, ih link.1⟩)

end Outcome

/-- `t` has the names of `s` and of what `s` receives, less what the alternatives take away. -/
def KeepsNames (d : Document) (m : Model) (s t : Schema) : Prop :=
  ∀ x, declares t.view.members.all x = true ↔
    (declares s.properties x = true ∨ ∃ q, s.Receives m.schema? q ∧ q.name = x) ∧ ¬ d.Drops s x

/-- `t` has the names that are authored along the links from `s` on. -/
def GathersNames (d : Document) (s t : Schema) : Prop :=
  ∀ x, declares t.view.members.all x = true ↔
    ∃ u, Relation.ReflTransGen d.Links s u ∧ declares u.properties x = true

/-- No member is lost or invented on the way from one schema to another. -/
theorem normalize_memberNames (h : d.normalize c = .ok m) :
    d.EachBecomes m (d.KeepsNames m) ∧
      ((∀ s ∈ d.schemas, s.alternatives = []) → d.EachBecomes m d.GathersNames) := by
  obtain ⟨r, R, as, imports, out⟩ := exists_outcome h
  refine ⟨out.eachBecomes fun s _ x => ?_, fun embedsOnly => out.eachBecomes fun s hs x => ?_⟩
  · rw [declares_all_finish, Schema.declares_members_all, out.mem_droppedNames,
      out.exists_receives_iff fun _ _ _ => by rw [Property.name_retag]]
  · have keeps : ∀ s ∈ d.schemas, ∀ x, ¬ d.Drops s x := by
      rintro s hs x ⟨k, hk, kind, notNull, notSelf, _⟩
      have alternative := Schema.mem_alternatives.2 ⟨hk, kind, notNull, notSelf⟩
      rw [embedsOnly s hs] at alternative
      cases alternative
    rw [declares_all_finish, out.declares_all_iff_reachable keeps hs]

def petsAndKennel : Document := { schemas := zoo.schemas.take 4 }

theorem normalize_memberNames_zoo :
    (∃ m, zoo.normalize {} = .ok m ∧ zoo.EachBecomes m (zoo.KeepsNames m)) ∧
      ∃ m, petsAndKennel.normalize { profile := .taggedUnion } = .ok m ∧
        petsAndKennel.EachBecomes m petsAndKennel.GathersNames := by
  have ok : (petsAndKennel.normalize { profile := .taggedUnion }).isOk = true := by decide +kernel
  have embedsOnly : ∀ s ∈ petsAndKennel.schemas, s.alternatives = [] := by decide +kernel
  obtain ⟨m, hm⟩ := exists_normalize_zoo {}
  refine ⟨⟨m, hm, (normalize_memberNames hm).1⟩, ?_⟩
  cases h : petsAndKennel.normalize { profile := .taggedUnion } with
  | error failure => rw [h] at ok; cases ok
  | ok m' => exact ⟨m', rfl, (normalize_memberNames h).2 embedsOnly⟩

end Document

end ApiModel
