import ApiModel.Proofs.Document.Outcome
import ApiModel.Proofs.Document.Profiles
import ApiModel.Proofs.Registry.Categories

/-! The categories that the schemas of a model show. However members came in, were dropped, sorted
and tagged, the lists of one schema agree with each other. -/

namespace ApiModel

open Property (declares)

namespace Document

variable {c : Config} {d : Document} {m : Model} {r R : Registry} {as : List TagAssignment}
  {imports : String → List String}

theorem Outcome.contains_directNames (h : Outcome c d m r R as imports) (s : Schema) :
    (m.directNames s).contains = declares (s.directMembers R) := by
  funext x
  rw [Bool.eq_iff_iff, List.contains_iff_mem, Model.mem_directNames h.map_unmarkedOffer_schema?]

/-- In every list of a schema the names are distinct and the order is the one of the keys, and the
lists are parts of each other. -/
theorem normalize_categories (h : d.normalize c = .ok m) :
    d.EachBecomes m fun s t =>
      t.view.members.Coherent c.profile (m.directNames s).contains := by
  obtain ⟨r, R, as, imports, out⟩ := exists_outcome h
  refine out.eachBecomes fun s _ => ?_
  rw [out.contains_directNames]
  exact Schema.coherent_members (out.settled.distinctNames_parentMembers s) as s.name

theorem normalize_categories_zoo : ∃ m, zoo.normalize { profile := .taggedUnion } = .ok m ∧
    zoo.EachBecomes m fun s t =>
      t.view.members.Coherent .taggedUnion (m.directNames s).contains := by
  obtain ⟨m, hm⟩ := exists_normalize_zoo { profile := .taggedUnion }
  exact ⟨m, hm, normalize_categories hm⟩

end Document

end ApiModel
