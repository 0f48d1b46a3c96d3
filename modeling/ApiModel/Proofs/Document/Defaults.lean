import ApiModel.Proofs.Document.Inheritance

/-! Which schema a default names. Every listed member goes back to one authored property, and on its
way from schema to schema it keeps the default that it was given where it was authored. So a default
that tells a subtype names the schema that declares the member, however far down it is inherited. -/

namespace ApiModel

namespace Document

/-- The member `e` of `s` goes back to the property `p` that `a` declares: it is authored by `s` if
`s` declares one of its name, and has come along the links otherwise. -/
structure Origin (d : Document) (m : Model) (s : Schema) (e : Property) (a : Schema)
    (p : Property) : Prop where
  authored : a ∈ d.schemas ∧ p ∈ a.properties ∧ ¬ m.Redeclares a p
  name : p.name = e.name
  reached : m.Declares s e.name ∧ a = s ∨ ¬ m.Declares s e.name ∧ Relation.TransGen d.Links s a
  same : e.inherited = { p.inherited with defaultValue := m.defaultOf a p }

variable {c : Config} {d : Document} {m : Model} {r R : Registry} {as : List TagAssignment}
  {imports : String → List String} {s u a : Schema} {e p q : Property}

theorem Origin.handedOn (h : d.Origin m u q a p) (link : d.Links s u) (new : ¬ m.Declares s e.name)
    (name : q.name = e.name) (same : e.inherited = q.inherited) : d.Origin m s e a p where
  authored := h.authored
  name := h.name.trans name
  reached := by
    rcases h.reached with ⟨_, rfl⟩ | ⟨_, path⟩
    · exact .inr ⟨new, .single link⟩
    · exact .inr ⟨new, .head link path⟩
  same := same.trans h.same

theorem Origin.of_provenance (hs : s ∈ d.schemas) (provenance : m.Provenance s e)
    (declared : m.Declares s e.name) : ∃ p, d.Origin m s e s p := by
  obtain ⟨p, hp, name, kept⟩ := declared
  have same := congrArg Property.inherited (provenance.authored p hp name kept)
  exact ⟨p, ⟨hs, hp, kept⟩, name, .inl ⟨⟨p, hp, name, kept⟩, rfl⟩, same⟩

namespace Outcome

variable (h : Outcome c d m r R as imports)
include h

theorem name_ne_of_links (hs : s ∈ d.schemas) (path : Relation.TransGen d.Links s u) :
    u.name ≠ s.name := by
  have waits {a b : Schema} (ha : a ∈ d.schemas) (link : d.Links a b) :
      r.WaitsFor a.name b.name :=
    ⟨h.contains link.1, a, Keyed.find?_of_mem (h.mem_iff.2 ha), link.2⟩
  have walk : u ∈ d.schemas ∧ Relation.TransGen r.WaitsFor s.name u.name := by
    induction path with
    | single link => exact ⟨link.1, .single (waits hs link)⟩
    | tail _ link ih => exact ⟨link.1, .tail ih.2 (waits ih.1 link)⟩
  obtain ⟨order, plan⟩ := h.scheduled
  intro same
  exact plan.acyclic s.name (same ▸ walk.2)

theorem exists_origin (hs : s ∈ d.schemas) :
    ∀ l ∈ ((s.normalize c R).finish c.naming as imports).view.members.lists, ∀ e ∈ l,
      ∃ a p, d.Origin m s e a p := by
  obtain ⟨order, plan⟩ := h.scheduled
  -- A member is received from a schema that comes earlier, where its origin is known by then.
  have along := plan.induction (P := fun n => ∀ s ∈ d.schemas, s.name = n →
    ∀ l ∈ ((s.normalize c R).finish c.naming as imports).view.members.lists, ∀ e ∈ l,
      ∃ a p, d.Origin m s e a p) ?_
  · exact along s (h.mem_iff.2 hs) s hs rfl
  intro v hv earlier s hs name l hl e he
  obtain rfl : s = v := List.inj_on_of_nodup_map r.nodup_keys (h.mem_iff.2 hs) hv name
  have provenance := h.provenance hs hl he
  by_cases declared : m.Declares s e.name
  · exact ⟨s, Origin.of_provenance hs provenance declared⟩
  have redeclared : ∀ p ∈ s.properties, p.name = e.name → m.Redeclares s p := by
    intro p hp name
    by_contra kept
    exact declared ⟨p, hp, name, kept⟩
  obtain ⟨_, q, ⟨n, t, takes, found, hq⟩, name, same⟩ := provenance.received redeclared
  obtain ⟨u, hu, rfl, rfl⟩ := h.exists_of_schema? found
  have before := earlier u.name (Schema.mem_dependencies.2 takes) (h.contains hu) u hu rfl
  obtain ⟨a, p, origin⟩ := before _ (by simp [Members.lists]) q hq
  exact ⟨a, p, origin.handedOn ⟨hu, takes⟩ declared name same⟩

end Outcome

theorem eq_name_of_defaultOf {v : String} (unset : p.defaultValue = none)
    (given : m.defaultOf a p = some v) : a.name = v ∧ p.isReadOnly = false ∧
      (m.parent? a).any (·.discriminates p) = true := by
  unfold Model.defaultOf at given
  split at given
  next asked => exact ⟨Option.some.inj given, asked.2⟩
  next =>
    rw [unset] at given
    cases given

/-- Where no default is authored, a default is the name of the schema that declares the member. It
is the name of the schema that lists the member only where that one declares it. -/
theorem normalize_defaults (h : d.normalize c = .ok m)
    (unset : ∀ s ∈ d.schemas, ∀ p ∈ s.properties, p.defaultValue = none) :
    d.EachBecomes m fun s t => ∀ l ∈ t.view.members.lists, ∀ e ∈ l,
      ∃ a p, d.Origin m s e a p ∧ ∀ v, e.defaultValue = some v →
        a.name = v ∧ p.isReadOnly = false ∧ (m.parent? a).any (·.discriminates p) = true ∧
          (v = s.name ↔ m.Declares s e.name) := by
  obtain ⟨r, R, as, imports, out⟩ := exists_outcome h
  refine out.eachBecomes fun s hs l hl e he => ?_
  obtain ⟨a, p, origin⟩ := out.exists_origin hs l hl e he
  refine ⟨a, p, origin, fun v given => ?_⟩
  have kept : e.defaultValue = m.defaultOf a p := congrArg Property.defaultValue origin.same
  obtain ⟨ha, hp, _⟩ := origin.authored
  obtain ⟨rfl, writable, discriminated⟩ := eq_name_of_defaultOf (unset a ha p hp) (kept ▸ given)
  refine ⟨rfl, writable, discriminated, ?_⟩
  rcases origin.reached with ⟨declared, rfl⟩ | ⟨new, path⟩
  · exact iff_of_true rfl declared
  · exact iff_of_false (out.name_ne_of_links hs path) new

def kind : Property := Property.plain "kind" "kind" "string"

def litter : Document where
  schemas := [
    ((Schema.named "Pet").withProperties [kind]).withDiscriminator "kind" [],
    ((Schema.named "Dog").withParent "Pet").withProperties [kind],
    (Schema.named "Puppy").withParent "Dog"]

theorem unset_litter : ∀ s ∈ litter.schemas, ∀ p ∈ s.properties, p.defaultValue = none := by
  decide

theorem normalize_defaults_litter : ∃ m, litter.normalize {} = .ok m ∧
    (∀ s ∈ litter.schemas, ∀ p ∈ s.properties, p.defaultValue = none) ∧
    litter.EachBecomes m fun s t => ∀ l ∈ t.view.members.lists, ∀ e ∈ l,
      ∃ a p, litter.Origin m s e a p ∧ ∀ v, e.defaultValue = some v →
        a.name = v ∧ p.isReadOnly = false ∧ (m.parent? a).any (·.discriminates p) = true ∧
          (v = s.name ↔ m.Declares s e.name) := by
  obtain ⟨m, hm, _⟩ := exists_normalize_of_any (d := litter) (c := {}) (P := fun _ => true)
    (by decide +kernel)
  exact ⟨m, hm, unset_litter, normalize_defaults hm unset_litter⟩

/-- The puppy reports that it is a dog. -/
theorem normalize_reportsParent_litter : ∃ m, litter.normalize {} = .ok m ∧
    (∀ s ∈ litter.schemas, ∀ p ∈ s.properties, p.defaultValue = none) ∧
      (m.schema? "Puppy").map (·.view.members.all) = some [(kind.withDefault "Dog").inherited] := by
  obtain ⟨m, hm, shown⟩ := exists_normalize_of_any (d := litter) (c := {})
    (P := fun m => decide ((m.schema? "Puppy").map (·.view.members.all) =
      some [(kind.withDefault "Dog").inherited])) (by decide +kernel)
  exact ⟨m, hm, unset_litter, of_decide_eq_true shown⟩

end Document

end ApiModel
