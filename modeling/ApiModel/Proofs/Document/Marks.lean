import ApiModel.Proofs.Document.Acceptance
import ApiModel.Proofs.Document.Inheritance
import ApiModel.Proofs.Document.Tags
import ApiModel.Proofs.Registry.Marks

/-! Documents whose properties are marked as inherited or tagged by their authors. Such marks decide
neither whether a document normalizes nor anything else of the model, but they stay: the model is
that of the document without them, with each marked property marked again wherever its own schema
lists it. -/

namespace ApiModel

namespace Model

instance (m : Model) (s : Schema) (p : Property) : Decidable (m.Redeclares s p) :=
  decidable_of_iff ((m.parent? s).any fun u => u.view.members.all.any p.sameEnum) <| by
    unfold Redeclares
    cases m.parent? s <;> simp

def declaredBy (m : Model) (s : Schema) : List Property :=
  s.properties.filter fun p => decide (¬ m.Redeclares s p)

/-- The marks of the entry `e` in a list of `s` tell where it comes from, and nothing else. -/
structure MarkedByOrigin (m : Model) (profile : Profile) (s : Schema) (e : Property) : Prop where
  isInherited_iff : e.isInherited = true ↔ ¬ m.Declares s e.name
  received : e.isInherited = true →
    ∃ q, s.Receives m.schema? q ∧ q.name = e.name ∧ e.inherited = q.inherited
  untagged : profile = .classical → e.tag = none

end Model

theorem Schema.finish_marked (n : Naming) (as : List TagAssignment)
    (imports : String → List String) (authored own : List Property) (s : Schema) :
    (s.marked authored own).finish n as imports = (s.finish n as imports).marked authored own := by
  have lists (l : List Property) : (l.map (Property.marked own)).map (Property.retag as s.name) =
      (l.map (Property.retag as s.name)).map (Property.marked own) := by
    simp only [List.map_map, Function.comp_def, Property.retag_marked]
  have tagged : (s.marked authored own).retag as = (s.retag as).marked authored own :=
    congrArg (fun t : Schema => { t with properties := authored }) (mapMembers_congr lists s)
  rw [finish, tagged]
  rfl

namespace Document

variable {c : Config} {d e : Document} {m u : Model} {r R : Registry} {as : List TagAssignment}
  {imports : String → List String} {s : Schema} {p : Property}

def unmarked (d : Document) : Document := { d with schemas := d.schemas.map Schema.unmarked }

/-- The schema of a model with the properties that `d` authors for it, and their marks in the
lists. -/
def markedSchema (d : Document) (m : Model) (t : Schema) : Schema :=
  match d.schemas.find? (·.name == t.name) with
  | none => t
  | some s => t.marked s.properties (m.declaredBy s)

def marked (d : Document) (m : Model) : Model :=
  { m with schemas := m.schemas.map (d.markedSchema m) }

theorem markedSchema_of_mem {t : Schema} (nodup : (d.schemas.map (·.name)).Nodup)
    (hs : s ∈ d.schemas) (name : t.name = s.name) :
    d.markedSchema m t = t.marked s.properties (m.declaredBy s) := by
  have found : d.schemas.find? (·.name == s.name) = some s :=
    (find?_key_eq_some_iff nodup).2 ⟨hs, rfl⟩
  rw [markedSchema, name, found]

theorem of?_normalize_unmarked (d : Document) (c : Config) :
    Failure.of? (d.unmarked.normalize c) = Failure.of? (d.normalize c) := by
  have schemas : Registry.ofSchemas d.unmarked.schemas = _ := Registry.ofSchemas_unmarked d.schemas
  cases h : Registry.ofSchemas d.schemas with
  | error f =>
    rw [h] at schemas
    rw [of?_normalize_of_error h, of?_normalize_of_error schemas]
  | ok r =>
    rw [h] at schemas
    rw [of?_normalize_of_ok h, of?_normalize_of_ok schemas, Registry.dependencyOrder_unmarked]
    rfl

theorem exists_operations (h : d.normalize c = .ok m) :
    ∃ ops, Operation.normalizeAll c d.operations = .ok ops ∧ m = .ofParts m.schemas ops := by
  obtain ⟨_, _, ops, _, _, ho, rfl⟩ := normalize_eq_ok_iff.1 h
  exact ⟨ops, ho, rfl⟩

theorem Outcome.declaredBy_eq (h : Outcome c d m r R as imports) (s : Schema) :
    m.declaredBy s = s.declaredIn R := by
  apply List.filter_congr
  intro p _
  rw [decide_not, Bool.not_inj_iff, ← Bool.decide_coe (s.isRedeclared R p)]
  exact decide_eq_decide.2 h.redeclares_iff

theorem exists_outcomes (hm : d.normalize c = .ok m) (hu : d.unmarked.normalize c = .ok u) :
    ∃ r R T as imports, Outcome c d m r R as imports ∧
      Outcome c d.unmarked u r.unmarked T as imports ∧ ∀ s : Schema, s.SeesSame R T := by
  obtain ⟨r, R, order, plan, out⟩ := exists_outcome_imported hm
  obtain ⟨r', T, order', plan', out'⟩ := exists_outcome_imported hu
  obtain rfl : r' = r.unmarked := by
    have admitted := Registry.ofSchemas_unmarked d.schemas
    rw [out.admitted] at admitted
    exact Except.ok.inj (out'.admitted.symm.trans admitted)
  obtain rfl : order = order' :=
    Except.ok.inj (plan.symm.trans (r.dependencyOrder_unmarked ▸ plan'))
  have related := out.settled.related out'.settled
  have keeps := Registry.keepsTags_sameLinks
  have children (n : String) (_ : R.contains n = true) := related.children n
  have assigned : R.assigned c order = T.assigned c order := by
    unfold Registry.assigned
    rw [funext (related.tagAssignments keeps children)]
  have imported : R.imported c order = T.imported c order := by
    unfold Registry.imported
    rw [funext (related.importedInTurn keeps children order)]
  rw [← assigned, ← imported] at out'
  have sees := out.settled.seesSame_unmarked out'.settled (Registry.schedule_of_dependencyOrder plan)
    fun s hs => out.distinctNames (out.mem_iff.1 hs)
  exact ⟨r, R, T, _, _, out, out', sees⟩

theorem schemas_marked (hm : d.normalize c = .ok m) (hu : d.unmarked.normalize c = .ok u) :
    m.schemas = (d.marked u).schemas := by
  obtain ⟨r, R, T, as, imports, out, out', sees⟩ := exists_outcomes hm hu
  have nodup := (Registry.ofSchemas_eq_ok_iff.1 out.admitted).2.1
  let become (s : Schema) := (s.normalize c T).finish c.naming as imports
  have each : ∀ s ∈ r.toList, (s.normalize c R).finish c.naming as imports =
      d.markedSchema u (become s.unmarked) := by
    intro s hs
    have authored : s ∈ d.schemas := out.mem_iff.1 hs
    have marked : d.markedSchema u (become s.unmarked) = _ := markedSchema_of_mem nodup authored rfl
    rw [marked, out'.declaredBy_eq, (sees s).normalize,
      Schema.normalize_eq_marked T (out.distinctNames authored), Schema.finish_marked]
  calc
    m.schemas = r.toList.map fun s => d.markedSchema u (become s.unmarked) := by
      rw [out.schemas, List.map_congr_left each]
    _ = ((r.toList.map Schema.unmarked).map become).map (d.markedSchema u) := by
      rw [List.map_map, List.map_map]
      rfl
    _ = u.schemas.map (d.markedSchema u) := by
      rw [out'.schemas]
      rfl

theorem normalize_eq_map_marked (d : Document) (c : Config) :
    d.normalize c = (d.unmarked.normalize c).map d.marked := by
  have failures := of?_normalize_unmarked d c
  cases hu : d.unmarked.normalize c with
  | error f =>
    rw [hu] at failures
    exact Failure.of?_eq_some_iff.1 failures.symm
  | ok u =>
    rw [hu] at failures
    obtain ⟨m, hm⟩ := Failure.of?_eq_none_iff.1 failures.symm
    obtain ⟨ops, ho, parts⟩ := exists_operations hm
    obtain ⟨ops', ho', parts'⟩ := exists_operations hu
    obtain rfl : ops = ops' := Except.ok.inj (ho.symm.trans ho')
    have same : m = d.marked u := by
      rw [parts, schemas_marked hm hu, parts']
      rfl
    rw [hm, same]
    rfl

theorem Outcome.markedByOrigin {l : List Property} {q : Property}
    (h : Outcome c d m r R as imports) (hs : s ∈ d.schemas)
    (unmarked : ∀ p ∈ s.properties, p.unmarked = p) (classical : c.profile = .classical → as = [])
    (hl : l ∈ ((s.normalize c R).finish c.naming as imports).view.members.lists) (hq : q ∈ l) :
    m.MarkedByOrigin c.profile s q := by
  have origin := h.provenance hs hl hq
  have own : m.Declares s q.name → q.isInherited = false := by
    rintro ⟨p, hp, name, kept⟩
    have authored := congrArg Property.isInherited (origin.authored p hp name kept)
    have unset := congrArg Property.isInherited (unmarked p hp)
    exact authored.trans unset.symm
  have copied (absent : ¬ m.Declares s q.name) := origin.received fun p hp name => by
    by_contra kept
    exact absent ⟨p, hp, name, kept⟩
  have inherited : q.isInherited = true ↔ ¬ m.Declares s q.name := by
    constructor
    · intro marked declared
      rw [own declared] at marked
      cases marked
    · intro absent
      exact (copied absent).1
  refine ⟨inherited, fun marked => (copied (inherited.1 marked)).2, fun profile => ?_⟩
  obtain ⟨l₀, hl₀, q₀, hq₀, rfl⟩ := Schema.exists_of_mem_lists_finish hl hq
  rw [classical profile]
  have tagged : m.AuthoredTag s q₀ := h.authoredTag hs
    (Schema.mem_direct_or_inherited_of_mem_lists l₀ hl₀ q₀ hq₀) rfl rfl
  by_cases declared : m.Declares s q₀.name
  · obtain ⟨p, hp, name, kept⟩ := declared
    have unset := congrArg Property.tag (unmarked p hp)
    exact (tagged.declared p hp name kept).trans unset.symm
  · exact tagged.received declared

/-- Documents that differ only in the marks that are authored become one model, in which each has
its own marks on the members that a schema declares itself. Where none are authored, the marks tell
which members are received. -/
theorem normalize_authoredMarks (h : d.unmarked = e.unmarked) (c : Config) :
    d.normalize c = (d.unmarked.normalize c).map d.marked ∧
      e.normalize c = (d.unmarked.normalize c).map e.marked ∧
      ∀ m, d.unmarked.normalize c = .ok m → d.unmarked.EachBecomes m fun s t =>
        ∀ l ∈ t.view.members.lists, ∀ q ∈ l, m.MarkedByOrigin c.profile s q := by
  refine ⟨normalize_eq_map_marked d c, h ▸ normalize_eq_map_marked e c, fun m hm => ?_⟩
  obtain ⟨r, R, order, imports, _, out⟩ := exists_outcome_assigned hm
  refine out.eachBecomes fun s hs l hl q hq => out.markedByOrigin hs ?_ (fun classical => ?_) hl hq
  · obtain ⟨s₀, _, rfl⟩ := List.mem_map.1 hs
    intro p hp
    obtain ⟨p₀, _, rfl⟩ := List.mem_map.1 hp
    rfl
  · unfold Registry.assigned
    rw [classical]
    exact if_neg Bool.false_ne_true

def branded : Document where
  schemas := [
    (Schema.named "Pet").withProperties [{ kind with isInherited := true, tag := some "dog" }],
    (Schema.named "Dog").withParent "Pet"]

theorem normalize_authoredMarks_branded : ∃ m, branded.unmarked.normalize {} = .ok m ∧
    branded.normalize {} = .ok (branded.marked m) ∧
    branded.unmarked.EachBecomes m fun s t =>
      ∀ l ∈ t.view.members.lists, ∀ q ∈ l, m.MarkedByOrigin .classical s q := by
  obtain ⟨m, hm, _⟩ := exists_normalize_of_any (d := branded.unmarked) (c := {})
    (P := fun _ => true) (by decide +kernel)
  obtain ⟨whole, _, origin⟩ := normalize_authoredMarks (d := branded) (e := branded.unmarked) rfl {}
  refine ⟨m, hm, ?_, origin m hm⟩
  rw [whole, hm]
  rfl

/-- Pets show their marks, and without the authored ones they have none. -/
theorem normalize_keepsMarks_branded : branded.unmarked = branded.unmarked.unmarked ∧
    ∃ m n, branded.normalize {} = .ok m ∧ branded.unmarked.normalize {} = .ok n ∧
      (m.schema? "Pet").map (·.view.members.vars) =
        some [{ kind with isInherited := true, tag := some "dog" }] ∧
      (n.schema? "Pet").map (·.view.members.vars) = some [kind] := by
  obtain ⟨m, hm, marked⟩ := exists_normalize_of_any (d := branded) (c := {})
    (P := fun m => decide ((m.schema? "Pet").map (·.view.members.vars) =
      some [{ kind with isInherited := true, tag := some "dog" }])) (by decide +kernel)
  obtain ⟨n, hn, plain⟩ := exists_normalize_of_any (d := branded.unmarked) (c := {})
    (P := fun n => decide ((n.schema? "Pet").map (·.view.members.vars) = some [kind]))
    (by decide +kernel)
  exact ⟨rfl, m, n, hm, hn, of_decide_eq_true marked, of_decide_eq_true plain⟩

end Document

end ApiModel
