import Mathlib.Logic.Relation
import ApiModel.Proofs.Document.Dangling
import ApiModel.Proofs.Document.Tags

/-! What one schema of a document depends on. Following parents and components from it leads to
every schema that its normalization reads, however far it is handed down; the rest of the document
can only add tags and imports of children, and that in tagged unions alone. -/

namespace ApiModel

namespace Schema

def mentioned (s : Schema) : List String := s.parent.toList ++ s.composedFrom.map (·.name)

theorem mem_mentioned_of_takesFrom {s : Schema} {x : String} (h : s.TakesFrom x) :
    x ∈ s.mentioned := by
  unfold mentioned
  rcases h with parent | ⟨_, k, hk, _, rfl⟩
  · exact List.mem_append_left _ (Option.mem_toList.2 parent)
  · exact List.mem_append_right _ (List.mem_map_of_mem hk)

theorem mem_mentioned_of_alternatives {s : Schema} {k : Component} (h : k ∈ s.alternatives) :
    k.name ∈ s.mentioned :=
  List.mem_append_right _ (List.mem_map_of_mem (mem_alternatives.1 h).1)

theorem withoutTags_finish (n : Naming) (as : List TagAssignment) (imports : String → List String)
    (s : Schema) :
    (s.finish n as imports).withoutTags.withoutImports = s.withoutTags.withoutImports := by
  have members : (s.retag as).view.members.map (·.map Property.untagged) =
      s.view.members.map (·.map Property.untagged) := Members.map_untagged_retag as s.name _
  unfold withoutTags
  show withoutImports { s with view := { s.view with
    members := (s.retag as).view.members.map (·.map Property.untagged), imports := ∅ } } = _
  rw [members]

end Schema

namespace Registry

variable {c : Config} {r t R T : Registry} {order : List String} {x : String}

theorem declares_of_cleared (h : (r.find? x).map Schema.cleared = (t.find? x).map Schema.cleared)
    {p : Property} : r.Declares x p ↔ t.Declares x p := by
  have properties := congrArg (Option.map Schema.properties) h
  rw [Option.map_map, Option.map_map] at properties
  have held (u : Registry) :
      u.Declares x p ↔ ∃ l, (u.find? x).map (·.properties) = some l ∧ p ∈ l := by
    simp only [Declares, Option.map_eq_some_iff, exists_exists_and_eq_and]
  rw [held, held]
  exact iff_of_eq (congrArg (fun o => ∃ l, o = some l ∧ p ∈ l) properties)

theorem Settled.find?_eq_on {P : String → Prop} (hR : Settled c r R) (hT : Settled c t T)
    (plan : r.Schedule order) (closed : ∀ s ∈ r.toList, P s.name → ∀ x ∈ s.mentioned, P x)
    (authored : ∀ x, P x → (r.find? x).map Schema.cleared = (t.find? x).map Schema.cleared) :
    ∀ x, P x → R.find? x = T.find? x := by
  have names (x : String) (hx : P x) : r.contains x = t.contains x := by
    have found := congrArg Option.isSome (authored x hx)
    rwa [Option.isSome_map, Option.isSome_map] at found
  have settled := hR.map_find?_eq_on hT (f := id) plan ?_ names ?_
  · simpa only [Option.map_id_fun, id_eq] using settled
  · intro s hs hP d hd
    exact closed s hs hP d (Schema.mem_mentioned_of_takesFrom (Schema.mem_dependencies.1 hd))
  · intro s hs hP u hu name deps
    have cleared : s.cleared = u.cleared := by
      have same := authored s.name hP
      rwa [Keyed.find?_of_mem hs, ← name, Keyed.find?_of_mem hu, Option.map_some, Option.map_some,
        Option.some_inj] at same
    have sees : s.SeesSame R T := by
      refine .of_offers (fun d hd => ?_) fun k hk p => ?_
      · have same := deps d hd
        rw [Option.map_id_fun, id_eq, id_eq] at same
        rw [same]
      · have hx : P k.name := closed s hs hP _ (Schema.mem_mentioned_of_alternatives hk)
        rw [hR.declares_iff, hT.declares_iff, declares_of_cleared (authored _ hx)]
    have core : s.core = u.core := by rw [← Schema.core_cleared, cleared, Schema.core_cleared]
    have intake : s.intake c = u.intake c := by
      rw [← Schema.intake_cleared, cleared, Schema.intake_cleared]
    rw [id_eq, id_eq, sees.normalize]
    exact normalize_eq_of_intake intake (Schema.view_normalize_of_core core c T)

end Registry

namespace Document

variable {c : Config} {d e : Document} {m k : Model} {n x : String}

def schema? (d : Document) (name : String) : Option Schema := d.schemas.find? (·.name == name)

/-- `x` is the name of the parent or of a component of the schema called `n`. -/
def Mentions (d : Document) (n x : String) : Prop :=
  ∃ s ∈ d.schemas, s.name = n ∧ x ∈ s.mentioned

theorem mem_of_reachable {l : List String}
    (closed : ∀ s ∈ d.schemas, s.name ∈ l → ∀ x ∈ s.mentioned, x ∈ l) (hn : n ∈ l)
    (reached : Relation.ReflTransGen d.Mentions n x) : x ∈ l := by
  induction reached with
  | refl => exact hn
  | tail _ step ih =>
    obtain ⟨s, hs, rfl, mentions⟩ := step
    exact closed s hs ih _ mentions

theorem find?_of_ofSchemas {r : Registry} (h : Registry.ofSchemas d.schemas = .ok r) (x : String) :
    r.find? x = d.schema? x := by
  obtain ⟨_, _, perm⟩ := Registry.ofSchemas_eq_ok_iff.1 h
  exact find?_key_perm perm r.nodup_keys x

/-- What a schema becomes is decided by the schemas that parents and components lead to from it. -/
theorem normalize_local (hm : d.normalize c = .ok m) (hk : e.normalize c = .ok k)
    (agree : ∀ x, Relation.ReflTransGen d.Mentions n x →
      (d.schema? x).map Schema.cleared = (e.schema? x).map Schema.cleared) :
    match c.profile with
    | .classical => m.schema? n = k.schema? n
    | .taggedUnion => (m.schema? n).map (·.withoutTags.withoutImports) =
        (k.schema? n).map (·.withoutTags.withoutImports) := by
  obtain ⟨r, R, order, plan, out⟩ := exists_outcome_imported hm
  obtain ⟨t, T, order', _, out'⟩ := exists_outcome_imported hk
  have settled : R.find? n = T.find? n := by
    refine out.settled.find?_eq_on out'.settled (Registry.schedule_of_dependencyOrder plan)
      (P := Relation.ReflTransGen d.Mentions n) ?_ ?_ n .refl
    · intro s hs reached x mentions
      exact reached.tail ⟨s, out.mem_iff.1 hs, rfl, mentions⟩
    · intro x reached
      rw [find?_of_ofSchemas out.admitted, find?_of_ofSchemas out'.admitted, agree x reached]
  rw [out.schema?, out'.schema?, settled]
  cases profile : c.profile with
  | classical =>
    have tagged : c.profile.isTaggedUnion = false := by rw [profile]; rfl
    unfold Registry.assigned Registry.imported
    rw [tagged]
    rfl
  | taggedUnion =>
    show Option.map _ _ = Option.map _ _
    rw [Option.map_map, Option.map_map]
    apply Option.map_congr
    intro s _
    show (s.finish _ _ _).withoutTags.withoutImports = (s.finish _ _ _).withoutTags.withoutImports
    rw [Schema.withoutTags_finish, Schema.withoutTags_finish]

def menagerie : Document where
  schemas := ((Schema.named "Ape").withParent "Pet").withProperties [.plain "age" "age" "number"] ::
    zoo.schemas.filter fun s => s.name ∈ ["Pet", "Dog", "Kennel"]

theorem normalize_local_kennel : ∃ m k, zoo.normalize {} = .ok m ∧ menagerie.normalize {} = .ok k ∧
    m.schema? "Kennel" = k.schema? "Kennel" := by
  obtain ⟨m, hm⟩ := exists_normalize_zoo {}
  obtain ⟨k, hk, _⟩ := exists_normalize_of_any (d := menagerie) (c := {}) (P := fun _ => true)
    (by decide +kernel)
  have agree (x : String) (reached : Relation.ReflTransGen zoo.Mentions "Kennel" x) :
      (zoo.schema? x).map Schema.cleared = (menagerie.schema? x).map Schema.cleared := by
    have listed : x ∈ ["Pet", "Dog", "Kennel"] :=
      mem_of_reachable (by decide +kernel) (by decide) reached
    have same : ∀ x ∈ ["Pet", "Dog", "Kennel"],
        (zoo.schema? x).map Schema.cleared = (menagerie.schema? x).map Schema.cleared := by
      decide +kernel
    exact same x listed
  exact ⟨m, k, hm, hk, normalize_local hm hk agree⟩

end Document

end ApiModel
