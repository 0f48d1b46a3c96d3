import ApiModel.Proofs.Document.MemberNames
import ApiModel.Proofs.Registry.Categories
import ApiModel.Proofs.Registry.Embedding

/-! Which definition a schema takes over from those that it embeds. It is the first one that can be
written, and only where there is none it is the first one. -/

namespace ApiModel

open Property (DistinctNames declares)

namespace Document

variable {c : Config} {d : Document} {m : Model} {r R : Registry} {as : List TagAssignment}
  {imports : String → List String} {s : Schema} {x : String}

namespace Outcome

variable (h : Outcome c d m r R as imports)
include h

theorem map_inherited_definitions (s : Schema) (x : String) :
    (s.definitions m.schema? x).map Property.inherited =
      (s.definitions R.find? x).map Property.inherited := by
  simp only [Schema.definitions, List.map_filterMap]
  apply List.filterMap_congr
  intro k _
  rw [h.schema?]
  cases R.find? k.name with
  | none => rfl
  | some u =>
    show ((u.view.members.all.map (Property.retag as u.name)).find? _).map Property.inherited =
      (u.view.members.all.find? _).map Property.inherited
    rw [Property.find?_map_retag, Option.map_map]
    simp only [Function.comp_def, Property.inherited_retag]

end Outcome

theorem find?_finished {l : List Property} (distinct : DistinctNames l) {p : Property}
    (found : l.find? (·.name == x) = some p) (as : List TagAssignment) (name : String) :
    ((Property.sort l).map (Property.retag as name)).find? (·.name == x) =
      some (p.retag as name) := by
  have sorted := find?_key_perm (Property.sort_perm l).symm distinct x
  rw [Property.find?_map_retag, ← sorted, found, Option.map_some]

/-- What `s` neither declares nor drops is as the preferred one of the embedded definitions. -/
theorem normalize_preferredDefinition (h : d.normalize c = .ok m) :
    d.EachBecomes m fun s t => ∀ x, declares s.properties x = false → ¬ d.Drops s x →
      ∀ q, Property.preferred (s.definitions m.schema? x) = some q →
        ∃ e, t.view.members.vars.find? (·.name == x) = some e ∧
          t.view.members.all.find? (·.name == x) = some e ∧ e.inherited = q.inherited := by
  obtain ⟨r, R, as, imports, out⟩ := exists_outcome h
  refine out.eachBecomes fun s _ x new kept q preferred => ?_
  have direct : (s.directMembers R).find? (·.name == x) = some q.inherited := by
    rw [Schema.find?_directMembers_of_new (fun n t => out.settled.distinctNames_all) new,
      ← Property.preferred_map_inherited, ← out.map_inherited_definitions,
      Property.preferred_map_inherited, preferred, Option.map_some]
  rw [← out.mem_droppedNames] at kept
  obtain ⟨vars, all⟩ := Schema.find?_members_of_direct (c := c) kept direct
  have distinctVars : DistinctNames (s.members c R).vars :=
    (Property.distinctNames_firstOfEachName _).filter _
  have distinctAll := Schema.distinctNames_members_all c R s
  refine ⟨q.inherited.retag as s.name, ?_, ?_, ?_⟩
  · exact find?_finished distinctVars vars as s.name
  · exact find?_finished distinctAll all as s.name
  · rw [Property.inherited_retag]
    rfl

def auditedRecord : Schema := (Schema.named "Record").composedOf .allOf ["Audited", "Editable"]

def audited : Document where
  schemas := [
    (Schema.named "Audited").withProperties [(Property.plain "id" "id" "string").readOnly],
    (Schema.named "Editable").withProperties [Property.plain "id" "id" "integer"],
    auditedRecord]

theorem not_drops_auditedRecord : ¬ audited.Drops auditedRecord "id" := by
  intro ⟨k, hk, kind, _⟩
  have embedded : ∀ k ∈ auditedRecord.composedFrom, k.kind = .allOf := by decide
  exact kind (embedded k hk)

theorem normalize_preferredDefinition_audited : ∃ m, audited.normalize {} = .ok m ∧
    declares auditedRecord.properties "id" = false ∧ ¬ audited.Drops auditedRecord "id" ∧
      Property.preferred (auditedRecord.definitions m.schema? "id") =
        some (.plain "id" "id" "integer") ∧
      audited.EachBecomes m fun s t => ∀ x, declares s.properties x = false →
        ¬ audited.Drops s x → ∀ q, Property.preferred (s.definitions m.schema? x) = some q →
          ∃ e, t.view.members.vars.find? (·.name == x) = some e ∧
            t.view.members.all.find? (·.name == x) = some e ∧ e.inherited = q.inherited := by
  obtain ⟨m, hm, preferred⟩ := exists_normalize_of_any (d := audited) (c := {})
    (P := fun m => Property.preferred (auditedRecord.definitions m.schema? "id") ==
      some (.plain "id" "id" "integer")) (by decide +kernel)
  exact ⟨m, hm, rfl, not_drops_auditedRecord, eq_of_beq preferred,
    normalize_preferredDefinition hm⟩

/-- The first definition is the read-only one, but the record has the other. -/
theorem normalize_laterDefinition_audited : ∃ m, audited.normalize {} = .ok m ∧
    declares auditedRecord.properties "id" = false ∧ ¬ audited.Drops auditedRecord "id" ∧
      (auditedRecord.definitions m.schema? "id").head? =
        some (Property.plain "id" "id" "string").readOnly ∧
      (m.schema? "Record").map (·.view.members.vars) =
        some [(Property.plain "id" "id" "integer").inherited] ∧
      (m.schema? "Record").map (·.view.members.all) =
        some [(Property.plain "id" "id" "integer").inherited] := by
  obtain ⟨m, hm, shown⟩ := exists_normalize_of_any (d := audited) (c := {}) (P := fun m => decide (
    (auditedRecord.definitions m.schema? "id").head? =
        some (Property.plain "id" "id" "string").readOnly ∧
      (m.schema? "Record").map (·.view.members.vars) =
        some [(Property.plain "id" "id" "integer").inherited] ∧
      (m.schema? "Record").map (·.view.members.all) =
        some [(Property.plain "id" "id" "integer").inherited])) (by decide +kernel)
  exact ⟨m, hm, rfl, not_drops_auditedRecord, of_decide_eq_true shown⟩

end Document

end ApiModel
