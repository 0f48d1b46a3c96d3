import Mathlib.Logic.Relation
import ApiModel.Response

/-! Which response stands for success, and the shape of its payload. The first response of the 2xx
family decides, so inserting others changes nothing as long as none of that family comes before it.
A shape names a type that is given and not empty, and the empty payload is told only where nothing
else is. -/

namespace ApiModel

def SuccessShape.type? : SuccessShape → Option String
  | none => .none
  | object type => some type
  | array item => item
  | map value => value

namespace Response

variable {l m : List Response} {r : Response} {s : SuccessShape} {type : String}
  {types : List (Option String)}

def Successful (r : Response) : Prop := ∃ rest, r.statusCode.toList = '2' :: rest

theorem isSuccess_iff : r.isSuccess = true ↔ r.Successful := by
  unfold isSuccess isSuccessCode Successful
  rw [beq_iff_eq, List.head?_eq_some_iff]

/-- `r` is the response that stands for success. -/
inductive Selects : List Response → Response → Prop
  | first {before after : List Response} {r : Response} (successful : r.Successful)
      (earlier : ∀ q ∈ before, ¬ q.Successful) : Selects (before ++ r :: after) r
  | fallback {rest : List Response} {r : Response} (none : ∀ q ∈ r :: rest, ¬ q.Successful) :
      Selects (r :: rest) r

/-- `m` is `l` with more responses in one place. Before the first of the 2xx family none of that
family comes in. -/
def Inserts (l m : List Response) : Prop :=
  ∃ before extra after, l = before ++ after ∧ m = before ++ extra ++ after ∧
    ((∀ r ∈ extra, ¬ r.Successful) ∨ ∃ r ∈ before, r.Successful)

def asSuccess (r : Response) : Success where
  shape := r.shape
  statusCode := some r.statusCode
  message := r.message

theorem success?_eq (l : List Response) : success? l = (l.find? isSuccess).or l.head? := by
  cases l with
  | nil => rfl
  | cons q rest =>
    have fallback : (if (q :: rest).isEmpty then none else some 0) = some 0 := rfl
    unfold success? successIndex?
    rw [fallback, List.find?_eq_bind_findIdx?_getElem?]
    cases found : (q :: rest).findIdx? isSuccess with
    | none => rfl
    | some i =>
      obtain ⟨inside, _⟩ := List.findIdx?_eq_some_iff_getElem.1 found
      show (q :: rest)[i]? = ((q :: rest)[i]?).or _
      rw [List.getElem?_eq_getElem inside, Option.some_or]

theorem find?_isSuccess_eq_none_iff : l.find? isSuccess = none ↔ ∀ q ∈ l, ¬ q.Successful := by
  simp only [List.find?_eq_none, isSuccess_iff]

theorem isSome_find?_isSuccess (given : ∃ r ∈ l, r.Successful) :
    (l.find? isSuccess).isSome = true := by
  obtain ⟨r, hr, successful⟩ := given
  rw [List.find?_isSome]
  exact ⟨r, hr, isSuccess_iff.2 successful⟩

theorem success?_eq_some_iff : success? l = some r ↔ Selects l r := by
  rw [success?_eq]
  constructor
  · intro h
    cases found : l.find? isSuccess with
    | some q =>
      rw [found, Option.some_or, Option.some_inj] at h
      obtain ⟨successful, before, after, rfl, earlier⟩ := List.find?_eq_some_iff_append.1 found
      subst h
      refine .first (isSuccess_iff.1 successful) fun q hq given => ?_
      simpa [isSuccess_iff.2 given] using earlier q hq
    | none =>
      rw [found, Option.none_or, List.head?_eq_some_iff] at h
      obtain ⟨rest, rfl⟩ := h
      exact .fallback (find?_isSuccess_eq_none_iff.1 found)
  · intro h
    cases h with
    | first successful earlier =>
      rw [List.find?_append, find?_isSuccess_eq_none_iff.2 earlier, Option.none_or,
        List.find?_cons_of_pos (isSuccess_iff.2 successful), Option.some_or]
    | fallback none =>
      rw [find?_isSuccess_eq_none_iff.2 none, Option.none_or, List.head?_cons]

theorem exists_selects (h : l ≠ []) : ∃ r, Selects l r := by
  obtain ⟨q, rest, rfl⟩ := List.exists_cons_of_ne_nil h
  have found : (success? (q :: rest)).isSome = true := by
    rw [success?_eq, List.head?_cons, Option.isSome_or, Option.isSome_some, Bool.or_true]
  obtain ⟨r, hr⟩ := Option.isSome_iff_exists.1 found
  exact ⟨r, success?_eq_some_iff.1 hr⟩

theorem Selects.classify_eq (h : Selects l r) : classify l = r.asSuccess := by
  rw [classify, success?_eq_some_iff.2 h]
  rfl

/-! ### Insertions -/

theorem Inserts.find?_eq (h : Inserts l m) : m.find? isSuccess = l.find? isSuccess := by
  obtain ⟨before, extra, after, rfl, rfl, others | given⟩ := h
  · rw [List.append_assoc, List.find?_append, List.find?_append, List.find?_append,
      find?_isSuccess_eq_none_iff.2 others, Option.none_or]
  · have first (rest : List Response) : (before ++ rest).find? isSuccess =
        before.find? isSuccess := by
      rw [List.find?_append, Option.or_of_isSome (isSome_find?_isSuccess given)]
    rw [List.append_assoc, first, first]

theorem find?_of_reflTransGen_inserts (h : Relation.ReflTransGen Inserts l m) :
    m.find? isSuccess = l.find? isSuccess := by
  induction h with
  | refl => rfl
  | tail _ step ih => rw [step.find?_eq, ih]

theorem classify_of_reflTransGen_inserts (h : Relation.ReflTransGen Inserts l m)
    (given : ∃ r ∈ l, r.Successful) : classify m = classify l := by
  have found := isSome_find?_isSuccess given
  have same : success? m = success? l := by
    rw [success?_eq, success?_eq, find?_of_reflTransGen_inserts h, Option.or_of_isSome found,
      Option.or_of_isSome found]
  rw [classify, classify, same]

/-! ### Shapes -/

def FirstNamed (types : List (Option String)) (type : String) : Prop :=
  ∃ before after, types = before ++ some type :: after ∧ type ≠ "" ∧
    ∀ t ∈ before, t = none ∨ t = some ""

def Unnamed (types : List (Option String)) : Prop := ∀ t ∈ types, t = none ∨ t = some ""

def typeNames (r : Response) : List (Option String) := [r.dataType, r.baseType, r.containerType]

/-- The shape of the payload of `r`, told from what is declared. -/
inductive HasShape (r : Response) : SuccessShape → Prop
  | object {type : String} (named : FirstNamed r.typeNames type) : HasShape r (.object type)
  | array {item : Option String} (unnamed : Unnamed r.typeNames) (isArray : r.isArray = true)
      (element : ∀ t, item = some t ↔ FirstNamed [r.itemType] t) : HasShape r (.array item)
  | map {value : Option String} (unnamed : Unnamed r.typeNames) (isArray : r.isArray = false)
      (isMap : r.isMap = true) (element : ∀ t, value = some t ↔ FirstNamed [r.valueType] t) :
      HasShape r (.map value)
  | empty (unnamed : Unnamed r.typeNames) (isArray : r.isArray = false) (isMap : r.isMap = false) :
      HasShape r (.object emptyType)

theorem nonempty_eq_some_iff {t : Option String} :
    nonempty t = some type ↔ t = some type ∧ type ≠ "" := by
  simp [nonempty, Option.filter_eq_some_iff]

theorem nonempty_eq_none_iff {t : Option String} : nonempty t = none ↔ t = none ∨ t = some "" := by
  cases t with
  | none => simp [nonempty]
  | some name => simp [nonempty]

theorem findSome?_nonempty_eq_some_iff :
    types.findSome? nonempty = some type ↔ FirstNamed types type := by
  rw [List.findSome?_eq_some_iff]
  constructor
  · rintro ⟨before, t, after, rfl, given, earlier⟩
    obtain ⟨rfl, named⟩ := nonempty_eq_some_iff.1 given
    exact ⟨before, after, rfl, named, fun t ht => nonempty_eq_none_iff.1 (earlier t ht)⟩
  · rintro ⟨before, after, rfl, named, earlier⟩
    exact ⟨before, some type, after, rfl, nonempty_eq_some_iff.2 ⟨rfl, named⟩,
      fun t ht => nonempty_eq_none_iff.2 (earlier t ht)⟩

theorem findSome?_nonempty_eq_none_iff : types.findSome? nonempty = none ↔ Unnamed types := by
  simp only [List.findSome?_eq_none_iff, nonempty_eq_none_iff, Unnamed]

theorem nonempty_eq_findSome? (t : Option String) : nonempty t = [t].findSome? nonempty := by
  rw [List.findSome?_singleton]

theorem shape_eq (r : Response) : r.shape =
    match r.typeNames.findSome? nonempty with
    | some type => .object type
    | none =>
      if r.isArray then .array (nonempty r.itemType)
      else if r.isMap then .map (nonempty r.valueType)
      else .object emptyType := by
  have named : (nonempty r.dataType <|> nonempty r.baseType <|> nonempty r.containerType) =
      r.typeNames.findSome? nonempty := by
    unfold typeNames
    simp only [List.findSome?_cons, List.findSome?_nil]
    cases nonempty r.dataType <;> cases nonempty r.baseType <;> cases nonempty r.containerType <;>
      rfl
  let told : Option String → SuccessShape
    | some type => .object type
    | none =>
      if r.isArray then .array (nonempty r.itemType)
      else if r.isMap then .map (nonempty r.valueType)
      else .object emptyType
  exact congrArg told named

theorem hasShape_shape (r : Response) : r.HasShape r.shape := by
  have element (t : Option String) (type : String) :
      nonempty t = some type ↔ FirstNamed [t] type := by
    rw [nonempty_eq_findSome?, findSome?_nonempty_eq_some_iff]
  rw [shape_eq]
  cases named : r.typeNames.findSome? nonempty with
  | some type => exact .object (findSome?_nonempty_eq_some_iff.1 named)
  | none =>
    have unnamed := findSome?_nonempty_eq_none_iff.1 named
    cases isArray : r.isArray with
    | true => exact .array unnamed isArray (element r.itemType)
    | false =>
      cases isMap : r.isMap with
      | true => exact .map unnamed isArray isMap (element r.valueType)
      | false => exact .empty unnamed isArray isMap

theorem HasShape.eq_shape (h : r.HasShape s) : s = r.shape := by
  have element {o t : Option String} (given : ∀ type, o = some type ↔ FirstNamed [t] type) :
      o = nonempty t := by
    apply Option.ext
    intro type
    rw [given, nonempty_eq_findSome?, findSome?_nonempty_eq_some_iff]
  rw [shape_eq]
  cases h with
  | object named => rw [findSome?_nonempty_eq_some_iff.2 named]
  | array unnamed isArray given =>
    rw [findSome?_nonempty_eq_none_iff.2 unnamed, isArray, element given]
    rfl
  | map unnamed isArray isMap given =>
    rw [findSome?_nonempty_eq_none_iff.2 unnamed, isArray, isMap, element given]
    rfl
  | empty unnamed isArray isMap =>
    rw [findSome?_nonempty_eq_none_iff.2 unnamed, isArray, isMap]
    rfl

theorem HasShape.type?_ne_empty (h : r.HasShape s) : s.type? ≠ some "" := by
  have named {types : List (Option String)} : ¬ FirstNamed types "" :=
    fun ⟨_, _, _, nonempty, _⟩ => nonempty rfl
  cases h with
  | object given => exact fun empty => named (Option.some.inj empty ▸ given)
  | array _ _ given => exact fun empty => named ((given "").1 empty)
  | map _ _ _ given => exact fun empty => named ((given "").1 empty)
  | empty => decide

theorem HasShape.ne_none (h : r.HasShape s) : s ≠ .none := by
  cases h <;> exact SuccessShape.noConfusion

/-- The first response of the 2xx family stands for success, wherever others are inserted, or else
the first response; the shape is the one that its declaration tells. -/
theorem classify_selected (l : List Response) :
    ((classify l).shape = .none ↔ l = []) ∧
      (l ≠ [] → ∃ r, Selects l r) ∧ (∀ r, Selects l r → classify l = r.asSuccess) ∧
      (∀ m, (∃ r ∈ l, r.Successful) → Relation.ReflTransGen Inserts l m →
        classify m = classify l) ∧
      ∀ r : Response, (∀ s, r.shape = s ↔ r.HasShape s) ∧ r.shape.type? ≠ some "" := by
  refine ⟨⟨fun none => ?_, ?_⟩, exists_selects, fun r => Selects.classify_eq,
    fun m given inserted => classify_of_reflTransGen_inserts inserted given, fun r => ?_⟩
  · cases l with
    | nil => rfl
    | cons q rest =>
      obtain ⟨r, selected⟩ := exists_selects (List.cons_ne_nil q rest)
      rw [selected.classify_eq] at none
      exact absurd none r.hasShape_shape.ne_none
  · rintro rfl
    rfl
  · refine ⟨fun s => ⟨?_, fun shape => shape.eq_shape.symm⟩, r.hasShape_shape.type?_ne_empty⟩
    rintro rfl
    exact r.hasShape_shape

def pets : Response :=
  { ofCode "200" with dataType := some "", containerType := some "array", isArray := true }

theorem classify_selected_pets :
    (∃ r ∈ [ofCode "404", pets], r.Successful) ∧
      Relation.ReflTransGen Inserts [ofCode "404", pets]
        [ofCode "404", ofCode "default", pets, ofCode "204"] ∧
      classify [ofCode "404", ofCode "default", pets, ofCode "204"] =
        classify [ofCode "404", pets] ∧
      ∃ r, Selects [ofCode "404", pets] r ∧ classify [ofCode "404", pets] = r.asSuccess ∧
        r.HasShape (.object "array") := by
  have failed (code : String) (other : isSuccess (ofCode code) = false) :
      ¬ (ofCode code).Successful := by
    rw [← isSuccess_iff, other]
    exact Bool.false_ne_true
  have successful : pets.Successful := isSuccess_iff.1 (by decide)
  have given : ∃ r ∈ [ofCode "404", pets], r.Successful :=
    ⟨pets, List.mem_cons_of_mem _ List.mem_cons_self, successful⟩
  have early : Inserts [ofCode "404", pets] [ofCode "404", ofCode "default", pets] := by
    refine ⟨[ofCode "404"], [ofCode "default"], [pets], rfl, rfl, .inl fun r hr => ?_⟩
    obtain rfl := List.mem_singleton.1 hr
    exact failed "default" (by decide)
  have late : Inserts [ofCode "404", ofCode "default", pets]
      [ofCode "404", ofCode "default", pets, ofCode "204"] :=
    ⟨[ofCode "404", ofCode "default", pets], [ofCode "204"], [], rfl, rfl,
      .inr ⟨pets, by simp, successful⟩⟩
  have inserted := (Relation.ReflTransGen.single early).tail late
  have selected : Selects [ofCode "404", pets] pets := by
    have earlier : ∀ q ∈ [ofCode "404"], ¬ q.Successful := by
      intro q hq
      obtain rfl := List.mem_singleton.1 hq
      exact failed "404" (by decide)
    exact .first successful earlier
  obtain ⟨_, _, classified, unchanged, shapes⟩ := classify_selected [ofCode "404", pets]
  exact ⟨given, inserted, unchanged _ given inserted, pets, selected, classified pets selected,
    ((shapes pets).1 _).1 (by decide)⟩

end Response

end ApiModel
