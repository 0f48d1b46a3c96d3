import ApiModel.Proofs.Document

/-! One document under two configurations. Each selector reaches only what it is meant for: the
dialect the text of the paths, the naming the files of the imports, and profile and dropping of
`Null` alternatives the schemas. -/

namespace ApiModel

def Schema.withoutFileNames (s : Schema) : Schema :=
  { s with view := { s.view with
      modelImports := s.view.modelImports.map fun i => { i with fileName := "" } } }

def Operation.withoutRenderedPath (op : Operation) : Operation :=
  { op with view := { op.view with renderedPath := "" } }

/-- What the models `m` and `m'` of one document, made under `c` and under `c'`, have in common. -/
structure Model.AgreesWith (c c' : Config) (m m' : Model) : Prop where
  encodable : m.hasEncodableParameters = m'.hasEncodableParameters
  form : m.hasFormParameters = m'.hasFormParameters
  operations : m.operations.map Operation.withoutRenderedPath =
    m'.operations.map Operation.withoutRenderedPath
  renderedPaths : c.pathDialect = c'.pathDialect → m.operations = m'.operations
  schemas : c.profile = c'.profile → c.stripNullableVariants = c'.stripNullableVariants →
    m.schemas.map Schema.withoutFileNames = m'.schemas.map Schema.withoutFileNames
  fileNames : c.profile = c'.profile → c.stripNullableVariants = c'.stripNullableVariants →
    c.naming = c'.naming → m.schemas = m'.schemas

variable {c c' : Config}

namespace Operation

variable {op o o' : Operation} {ops out out' : List Operation}

theorem withoutRenderedPath_of_normalize (h : op.normalize c = .ok o)
    (h' : op.normalize c' = .ok o') : o.withoutRenderedPath = o'.withoutRenderedPath := by
  obtain ⟨parts, hp, rfl⟩ := normalize_eq_ok_iff.1 h
  obtain ⟨parts', hp', rfl⟩ := normalize_eq_ok_iff.1 h'
  obtain rfl : parts = parts' := Except.ok.inj (hp.symm.trans hp')
  rfl

theorem normalize_of_pathDialect (dialect : c.pathDialect = c'.pathDialect) (op : Operation) :
    op.normalize c = op.normalize c' := by
  unfold normalize expansion
  rw [dialect]

theorem map_eq_of_normalizeAll {β : Type} {f : Operation → β}
    (each : ∀ op o o' : Operation, op.normalize c = .ok o → op.normalize c' = .ok o' → f o = f o')
    (h : normalizeAll c ops = .ok out) (h' : normalizeAll c' ops = .ok out') :
    out.map f = out'.map f := by
  have made := (normalizeAll_eq_ok_iff.1 h).1
  have made' := (normalizeAll_eq_ok_iff.1 h').1
  clear h h'
  induction made generalizing out' with
  | nil => rw [List.forall₂_nil_left_iff.1 made']
  | cons head _ ih =>
    obtain ⟨o', rest, head', tail', rfl⟩ := List.forall₂_cons_left_iff.1 made'
    rw [List.map_cons, List.map_cons, each _ _ o' head head', ih tail']

end Operation

theorem Schema.normalize_of_selectors (profile : c.profile = c'.profile)
    (strips : c.stripNullableVariants = c'.stripNullableVariants) (r : Registry) (s : Schema) :
    s.normalize c r = s.normalize c' r := by
  have stripsNull : c.stripsNull = c'.stripsNull := by
    unfold Config.stripsNull
    rw [profile, strips]
  simp only [normalize, members, visibleMembers, visibleCandidates, base, importsFor,
    keptComponents, becomesNullable, nullAlternatives, profile, stripsNull]

namespace Registry

variable {r R T : Registry} {order : List String}

theorem normalizeEach_of_selectors (profile : c.profile = c'.profile)
    (strips : c.stripNullableVariants = c'.stripNullableVariants) (r : Registry)
    (order : List String) : r.normalizeEach c order = r.normalizeEach c' order := by
  have step : normalizeAt c = normalizeAt c' := by
    funext r name
    unfold normalizeAt
    simp only [Schema.normalize_of_selectors profile strips]
  unfold normalizeEach
  rw [step]

theorem normalize_of_selectors (profile : c.profile = c'.profile)
    (strips : c.stripNullableVariants = c'.stripNullableVariants) (hR : r.normalize c = .ok R)
    (hT : r.normalize c' = .ok T) :
    R.toList.map Schema.withoutFileNames = T.toList.map Schema.withoutFileNames ∧
      (c.naming = c'.naming → R = T) := by
  obtain ⟨order, plan, rfl⟩ := normalize_eq_ok_iff.1 hR
  obtain ⟨order', plan', rfl⟩ := normalize_eq_ok_iff.1 hT
  obtain rfl : order = order' := Except.ok.inj (plan.symm.trans plan')
  have tags (r : Registry) : r.assignTags c order = r.assignTags c' order := by
    unfold assignTags
    rw [profile]
  rw [normalizeEach_of_selectors profile strips, tags]
  refine ⟨?_, fun naming => by rw [naming]⟩
  have files (n : Naming) (r : Registry) : (r.assignModelImports n).toList.map
      Schema.withoutFileNames = r.toList.map (Schema.withoutFileNames ∘
        Schema.assignModelImports n) := by
    show (r.toList.map _).map _ = _
    rw [List.map_map]
  have naming : Schema.withoutFileNames ∘ Schema.assignModelImports c.naming =
      Schema.withoutFileNames ∘ Schema.assignModelImports c'.naming := by
    funext s
    simp only [Function.comp_apply, Schema.withoutFileNames, Schema.assignModelImports,
      List.map_map, Function.comp_def]
  rw [files, files, naming]

end Registry

namespace Document

variable {m : Model}

/-- No selector shows anywhere but in its own part of the model. -/
theorem normalize_selectors {d : Document} (h : d.normalize c = .ok m) (c' : Config) :
    ∃ m', d.normalize c' = .ok m' ∧ m.AgreesWith c c' m' := by
  obtain ⟨m', hm'⟩ := exists_normalize h c'
  refine ⟨m', hm', ?_⟩
  obtain ⟨r, R, ops, hr, hR, ho, rfl⟩ := normalize_eq_ok_iff.1 h
  obtain ⟨r', T, ops', hr', hT, ho', rfl⟩ := normalize_eq_ok_iff.1 hm'
  obtain rfl : r = r' := Except.ok.inj (hr.symm.trans hr')
  have operations : ops.map Operation.withoutRenderedPath =
      ops'.map Operation.withoutRenderedPath :=
    Operation.map_eq_of_normalizeAll
      (fun _ _ _ => Operation.withoutRenderedPath_of_normalize) ho ho'
  have flag (p : Operation → Bool) (hp : ∀ o, p o.withoutRenderedPath = p o) :
      ops.any p = ops'.any p := by
    have through (l : List Operation) : l.any p = (l.map Operation.withoutRenderedPath).any p := by
      simp only [List.any_map, Function.comp_def, hp]
    rw [through ops, operations, ← through]
  constructor
  case encodable => exact flag _ fun _ => rfl
  case form => exact flag _ fun _ => rfl
  case operations => exact operations
  case renderedPaths =>
    intro dialect
    show ops = ops'
    have each (op o o' : Operation) (made : op.normalize c = .ok o)
        (made' : op.normalize c' = .ok o') : id o = id o' := by
      rw [Operation.normalize_of_pathDialect dialect, made'] at made
      exact (Except.ok.inj made).symm
    have same := Operation.map_eq_of_normalizeAll each ho ho'
    rwa [List.map_id, List.map_id] at same
  case schemas =>
    intro profile strips
    exact (Registry.normalize_of_selectors profile strips hR hT).1
  case fileNames =>
    intro profile strips naming
    exact congrArg Keyed.toList ((Registry.normalize_of_selectors profile strips hR hT).2 naming)

theorem normalize_selectors_zoo : ∃ m m', zoo.normalize {} = .ok m ∧
    zoo.normalize { pathDialect := .csharp, naming := .kebabCase } = .ok m' ∧
      m.AgreesWith {} { pathDialect := .csharp, naming := .kebabCase } m' := by
  obtain ⟨m, hm⟩ := exists_normalize_zoo {}
  obtain ⟨m', hm', same⟩ := normalize_selectors hm { pathDialect := .csharp, naming := .kebabCase }
  exact ⟨m, m', hm, hm', same⟩

end Document

end ApiModel
