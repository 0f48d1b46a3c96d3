import ApiModel.Proofs.Registry.Reading

/-! What the alternatives of a schema take away. Its members are gathered first; then every category
but the parent's loses the entries with a dropped name, whatever else they are. What is gathered
does not depend on tags, so it can be told from the finished schemas. -/

namespace ApiModel

open Property (firstOfEachName)

def Members.pruned : List (Members → List Property) :=
  [vars, all, required, optional, readOnly, readWrite]

namespace Schema

variable {c : Config} {r t : Registry} {s : Schema}

/-- The members before alternatives take any away. -/
def gathered (c : Config) (r : Registry) (s : Schema) : Members where
  vars := visibleMembers c r s
  all := firstOfEachName (visibleMembers c r s ++ inheritedMembers r s)
  required := (visibleMembers c r s).filter (·.isRequired)
  optional := (visibleMembers c r s).filter (!·.isRequired)
  readOnly := (directMembers r s).filter (·.isReadOnly)
  readWrite := (directMembers r s).filter (!·.isReadOnly)
  parent := inheritedMembers r s

theorem members_eq_filter_gathered (c : Config) (r : Registry) (s : Schema) :
    ∀ category ∈ Members.pruned, category (members c r s) =
      (category (gathered c r s)).filter fun p => !(droppedNames r s).contains p.name := by
  simp only [Members.pruned, List.forall_mem_cons]
  exact ⟨rfl, rfl, rfl, rfl, rfl, rfl, List.forall_mem_nil _⟩

theorem SeesAlike.gathered (h : s.SeesAlike r t) (c : Config) :
    gathered c r s = gathered c t s := by
  simp only [Schema.gathered, visibleMembers, visibleCandidates, h.directMembers, h.inheritedMembers]

end Schema

end ApiModel
