import ApiModel.Proofs.Document
import ApiModel.Proofs.Registry.Profiles

/-! One document under the two profiles. Its schemas have the same members in both models but for
the tags; the profiles only differ in which of the members a schema shows as its own, and in whether
it extends its parent. -/

namespace ApiModel

open Property (declares)

/-- Names of the members that a schema does not have from its parent: those that it declares, less
the enums that the parent has too, and those of the schemas that it embeds. -/
def Model.directNames (m : Model) (s : Schema) : List String :=
  let handedDown := ((s.parent.bind m.schema?).map (·.view.members.all)).getD []
  (s.properties.filter fun p => !handedDown.any p.sameEnum).map (·.name) ++
    (s.embedded.filterMap fun k => m.schema? k.name).flatMap fun t =>
      t.view.members.all.map (·.name)

/-- What `s` has become in the classical model `a` of the document, and in a tagged union. -/
structure Document.SameContent (d : Document) (a : Model) (s classical union : Schema) : Prop where
  all : classical.view.members.all.map Property.untagged =
    union.view.members.all.map Property.untagged
  parent : classical.view.members.parent.map Property.untagged =
    union.view.members.parent.map Property.untagged
  readOnly : classical.view.members.readOnly.map Property.untagged =
    union.view.members.readOnly.map Property.untagged
  readWrite : classical.view.members.readWrite.map Property.untagged =
    union.view.members.readWrite.map Property.untagged
  unionVars : union.view.members.vars = union.view.members.all
  unionBase : union.view.base = none
  classicalBase : classical.view.base =
    s.parent.filter fun parent => d.schemas.any (·.name == parent)
  classicalVars : classical.view.members.vars.map Property.untagged =
    (union.view.members.vars.map Property.untagged).filter fun p =>
      (a.directNames s).contains p.name

theorem Model.mem_directNames {m : Model} {R : Registry}
    (h : ∀ n, (m.schema? n).map Schema.unmarkedOffer = (R.find? n).map Schema.unmarkedOffer)
    {s : Schema} {x : String} :
    x ∈ m.directNames s ↔ declares (s.directMembers R) x = true := by
  have parent : (s.parent.bind m.schema?).map Schema.unmarkedOffer =
      (R.parent? s).map Schema.unmarkedOffer := by
    rw [Registry.parent?]
    cases s.parent with
    | none => rfl
    | some parent => exact h parent
  have redeclared (p : Property) :
      (((s.parent.bind m.schema?).map (·.view.members.all)).getD []).any p.sameEnum =
        s.isRedeclared R p := by
    rw [Schema.any_sameEnum_getD, parent, ← Schema.isRedeclared_eq]
  have names (n : String) : (m.schema? n).map (·.view.members.all.map (·.name)) =
      (R.find? n).map (·.view.members.all.map (·.name)) := by
    have := congrArg (Option.map fun o => o.2.map (·.name)) (h n)
    simpa only [Option.map_map, Function.comp_def, Schema.unmarkedOffer, List.map_map,
      Property.name_unmarked] using this
  have embedded : (s.embedded.filterMap fun k => m.schema? k.name).flatMap
      (fun t => t.view.members.all.map (·.name)) =
      (s.embedded.filterMap fun k => R.find? k.name).flatMap
        fun t => t.view.members.all.map (·.name) := by
    simp only [List.flatMap_def, List.map_filterMap, names]
  rw [Schema.declares_directMembers, directNames, embedded, List.mem_append, List.mem_map]
  simp only [redeclared, List.mem_flatMap, List.mem_filterMap, List.mem_filter, List.mem_map,
    Property.declares_iff, Bool.not_eq_true']
  constructor
  · rintro (⟨p, ⟨hp, keep⟩, rfl⟩ | ⟨t, ⟨k, hk, ht⟩, q, hq, rfl⟩)
    · exact .inl ⟨p, hp, keep, rfl⟩
    · exact .inr ⟨k, hk, t, ht, q, hq, rfl⟩
  · rintro (⟨p, hp, keep, rfl⟩ | ⟨k, hk, t, ht, q, hq, rfl⟩)
    · exact .inl ⟨p, ⟨hp, keep⟩, rfl⟩
    · exact .inr ⟨t, ⟨k, hk, ht⟩, q, hq, rfl⟩

namespace Document

variable {d : Document} {c u : Config} {r R T : Registry} {order : List String}

theorem sameContent_normalize (hc : c.profile.isTaggedUnion = false)
    (hu : u.profile.isTaggedUnion = true) {s : Schema} (sees : s.SeesSame R T)
    (as : List TagAssignment) (imported : List String) {a : Model}
    (lookup : ∀ n, a.schema? n = (R.find? n).map (Schema.assignModelImports c.naming))
    (known : ∀ n, R.contains n = d.schemas.any (·.name == n)) :
    d.SameContent a s ((s.normalize c R).assignModelImports c.naming)
      ((((s.normalize u T).retag as).addImports imported).assignModelImports u.naming) := by
  have same : s.members u T = s.members u R := sees.members.symm
  have all : (s.members u T).all = (s.members c R).all := by
    rw [same, Schema.members_all c, Schema.members_all u]
  have parent : (s.members u T).parent = (s.members c R).parent := by rw [same]; rfl
  have readOnly : (s.members u T).readOnly = (s.members c R).readOnly := by rw [same]; rfl
  have readWrite : (s.members u T).readWrite = (s.members c R).readWrite := by rw [same]; rfl
  have vars : (s.members u T).vars = (s.members c R).all := by
    rw [Schema.members_vars_of_taggedUnion hu, all]
  have untag {l m : List Property} (h : m = l) : (Property.sort l).map Property.untagged =
      ((Property.sort m).map (Property.retag as s.name)).map Property.untagged := by
    rw [h, Property.map_untagged_retag]
  constructor
  case all => exact untag all
  case parent => exact untag parent
  case readOnly => exact untag readOnly
  case readWrite => exact untag readWrite
  case unionVars =>
    show (Property.sort (s.members u T).vars).map _ = (Property.sort (s.members u T).all).map _
    rw [vars, all]
  case unionBase =>
    show s.base u T = none
    rw [Schema.base, if_pos hu]
  case classicalBase =>
    show s.base c R = _
    rw [Schema.base_of_classical hc, funext known]
  case classicalVars =>
    have offered (n : String) :
        (a.schema? n).map Schema.unmarkedOffer = (R.find? n).map Schema.unmarkedOffer := by
      rw [lookup, Option.map_map]
      rfl
    have direct (x : String) : (a.directNames s).contains x = declares (s.directMembers R) x := by
      rw [Bool.eq_iff_iff, List.contains_iff_mem, Model.mem_directNames offered]
    show (Property.sort (s.members c R).vars).map Property.untagged =
      (((Property.sort (s.members u T).vars).map (Property.retag as s.name)).map
        Property.untagged).filter _
    rw [← untag vars, Schema.members_vars_of_classical hc,
      Property.sort_filter (Schema.distinctNames_members_all c R s), List.filter_map]
    simp only [Function.comp_def, Property.name_untagged, direct]

/-- Under the two profiles the schemas of a document have the same members. -/
theorem normalize_profiles {c₀ : Config} {m₀ : Model} (h : d.normalize c₀ = .ok m₀)
    (hc : c.profile = .classical) (hu : u.profile = .taggedUnion) :
    ∃ a b, d.normalize c = .ok a ∧ d.normalize u = .ok b ∧
      ∀ s ∈ d.schemas, ∃ classical union, a.schema? s.name = some classical ∧
        b.schema? s.name = some union ∧ d.SameContent a s classical union := by
  have hc' : c.profile.isTaggedUnion = false := by rw [hc]; rfl
  have hu' : u.profile.isTaggedUnion = true := by rw [hu]; rfl
  obtain ⟨r, order, hr, plan, runs⟩ := exists_run h
  obtain ⟨ops, ha⟩ := runs c
  obtain ⟨ops', hb⟩ := runs u
  refine ⟨_, _, ha, hb, fun s hs => ?_⟩
  have plan := Registry.schedule_of_dependencyOrder plan
  have hR := plan.settled c
  have hT := plan.settled u
  have mem : s ∈ r.toList := (Registry.ofSchemas_eq_ok_iff.1 hr).2.2.mem_iff.2 hs
  have lookup (n : String) : (Registry.assignModelImports c.naming
      ((r.normalizeEach c order).assignTags c order)).find? n =
        ((r.normalizeEach c order).find? n).map (Schema.assignModelImports c.naming) := by
    rw [Registry.find?_assignModelImports, Registry.assignTags_of_classical hc']
  have known (n : String) :
      (r.normalizeEach c order).contains n = d.schemas.any (·.name == n) := by
    rw [hR.sameCore.contains, Registry.contains_of_ofSchemas hr]
  refine ⟨_, _, ?_, ?_, sameContent_normalize hc' hu' (hR.seesSame hT plan s)
    (order.flatMap (r.normalizeEach u order).tagAssignments)
    ((r.normalizeEach u order).importedInTurn order s.name) lookup known⟩
  · show Keyed.find? _ s.name = _
    rw [lookup, hR.find? mem, Option.map_some]
  · show Keyed.find? _ s.name = _
    rw [Registry.find?_assignModelImports, Registry.find?_assignTags hu', hT.find? mem,
      Option.map_some, Option.map_some]

theorem normalize_profiles_zoo : ∃ a b,
    zoo.normalize {} = .ok a ∧ zoo.normalize { profile := .taggedUnion } = .ok b ∧
      ∀ s ∈ zoo.schemas, ∃ classical union, a.schema? s.name = some classical ∧
        b.schema? s.name = some union ∧ zoo.SameContent a s classical union := by
  obtain ⟨m, hm⟩ := exists_normalize_zoo {}
  exact normalize_profiles hm rfl rfl

end Document

end ApiModel
