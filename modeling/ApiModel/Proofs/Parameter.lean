import Mathlib.Data.Option.Basic
import Mathlib.Data.Prod.Lex
import Mathlib.Order.Bounds.Basic
import ApiModel.Parameter

/-! Which parameter a placeholder means. Parameters answer to it by their name or by a similar one;
of those that answer, one of the best grade is meant, and of these the first. Being in the path
makes a better grade of the very name only, not of a similar one. -/

namespace ApiModel.Parameter

variable {l : List Parameter} {name : String} {p q : Parameter} {i g : Nat}

def Declares (l : List Parameter) (name : String) : Prop :=
  ∃ p ∈ l, p.name = name ∨ p.isSimilar name = true

theorem declares_map_identified (l : List Parameter) :
    Declares (l.map identified) = Declares l := by
  funext name
  unfold Declares
  simp only [List.mem_map, exists_exists_and_eq_and]
  rfl

theorem bestMatch?_eq_none_iff : bestMatch? l name = none ↔ ¬ Declares l name := by
  unfold bestMatch? Declares
  rw [Option.orElse_eq_none, Option.orElse_eq_none]
  simp only [List.findIdx?_eq_none_iff, Bool.and_eq_false_imp, beq_iff_eq, beq_eq_false_iff_ne,
    not_exists, not_and, not_or, Bool.not_eq_true]
  constructor
  · intro h p hp
    exact ⟨h.2.1 p hp, h.2.2 p hp⟩
  · intro h
    exact ⟨fun p hp _ => (h p hp).1, fun p hp => (h p hp).1, fun p hp => (h p hp).2⟩

theorem bestMatch?_map_identified (l : List Parameter) (name : String) :
    bestMatch? (l.map identified) name = bestMatch? l name := by
  unfold bestMatch?
  simp only [List.findIdx?_map]
  rfl

theorem meant?_map_identified (l : List Parameter) (name : String) :
    meant? (l.map identified) name = (meant? l name).map identified := by
  unfold meant?
  rw [bestMatch?_map_identified, Option.map_bind]
  simp only [List.getElem?_map]
  rfl

/-! ### Grades -/

/-- How a parameter answers to a placeholder: best in the path and by the very name, then by the
very name, then by a similar one. -/
def grade? (name : String) (p : Parameter) : Option Nat :=
  if p.name = name then some (if p.location = .path then 0 else 1)
  else if p.isSimilar name = true then some 2
  else none

theorem grade?_eq_some_iff : p.grade? name = some g ↔
    g = 0 ∧ p.name = name ∧ p.location = .path ∨
      g = 1 ∧ p.name = name ∧ p.location ≠ .path ∨
      g = 2 ∧ p.name ≠ name ∧ p.isSimilar name = true := by
  unfold grade?
  by_cases exact : p.name = name
  · by_cases path : p.location = .path <;> grind
  · by_cases similar : p.isSimilar name = true <;> grind

theorem exists_grade?_iff :
    (∃ g, p.grade? name = some g) ↔ p.name = name ∨ p.isSimilar name = true := by
  unfold grade?
  split
  next exact => simp [exact]
  next other => split <;> simp_all

def answers (l : List Parameter) (name : String) : Set (Nat ×ₗ Nat) :=
  { key | ∃ i p g, l[i]? = some p ∧ p.grade? name = some g ∧ toLex (g, i) = key }

/-- A search finds the least answer if what it looks for has one grade and no parameter has a
better one. -/
theorem isLeast_of_findIdx? {f : Parameter → Bool} (found : l.findIdx? f = some i)
    (graded : ∀ p ∈ l, f p = true → p.grade? name = some g)
    (best : ∀ p ∈ l, ∀ k, p.grade? name = some k → g < k ∨ g = k ∧ f p = true) :
    IsLeast (answers l name) (toLex (g, i)) := by
  obtain ⟨lt, holds, earlier⟩ := List.findIdx?_eq_some_iff_getElem.1 found
  refine ⟨⟨i, l[i], g, List.getElem?_eq_getElem lt, graded _ (List.getElem_mem lt) holds, rfl⟩, ?_⟩
  rintro _ ⟨j, q, k, hq, hk, rfl⟩
  obtain ⟨lt', rfl⟩ := List.getElem?_eq_some_iff.1 hq
  rw [Prod.Lex.toLex_le_toLex]
  rcases best _ (List.getElem_mem lt') k hk with better | ⟨same, holds'⟩
  · exact .inl better
  · exact .inr ⟨same, not_lt.1 fun before => earlier j before holds'⟩

theorem isLeast_of_bestMatch? (h : bestMatch? l name = some i) :
    ∃ g, IsLeast (answers l name) (toLex (g, i)) := by
  rw [bestMatch?, Option.orElse_eq_some, Option.orElse_eq_some] at h
  rcases h with inPath | ⟨noneInPath, exact | ⟨noneExact, similar⟩⟩
  · refine ⟨0, isLeast_of_findIdx? inPath (fun p _ holds => ?_) fun p _ k hk => ?_⟩
    · rw [grade?_eq_some_iff]
      simp_all
    · rw [grade?_eq_some_iff] at hk
      rcases hk with ⟨rfl, name, path⟩ | ⟨rfl, _⟩ | ⟨rfl, _⟩
      · simp [name, path]
      · simp
      · simp
  · have elsewhere : ∀ p ∈ l, p.name = name → p.location ≠ .path := by
      intro p hp same path
      have missed := List.findIdx?_eq_none_iff.1 noneInPath p hp
      simp [same, path] at missed
    refine ⟨1, isLeast_of_findIdx? exact (fun p hp holds => ?_) fun p hp k hk => ?_⟩
    · have same : p.name = name := by simpa using holds
      exact grade?_eq_some_iff.2 (.inr (.inl ⟨rfl, same, elsewhere p hp same⟩))
    · rcases grade?_eq_some_iff.1 hk with ⟨_, same, path⟩ | ⟨rfl, same, _⟩ | ⟨rfl, _⟩
      · exact absurd path (elsewhere p hp same)
      · exact .inr ⟨rfl, beq_iff_eq.2 same⟩
      · exact .inl (by decide)
  · have other : ∀ p ∈ l, p.name ≠ name := by
      intro p hp
      simpa using List.findIdx?_eq_none_iff.1 noneExact p hp
    refine ⟨2, isLeast_of_findIdx? similar (fun p hp holds => ?_) fun p hp k hk => ?_⟩
    · exact grade?_eq_some_iff.2 (.inr (.inr ⟨rfl, other p hp, holds⟩))
    · rcases grade?_eq_some_iff.1 hk with ⟨_, same, _⟩ | ⟨_, same, _⟩ | ⟨rfl, _, holds⟩
      · exact absurd same (other p hp)
      · exact absurd same (other p hp)
      · exact .inr ⟨rfl, holds⟩

theorem bestMatch?_eq_some_iff :
    bestMatch? l name = some i ↔ ∃ g, IsLeast (answers l name) (toLex (g, i)) := by
  refine ⟨isLeast_of_bestMatch?, fun ⟨g, least⟩ => ?_⟩
  obtain ⟨_, p, _, hp, graded, eq⟩ := least.1
  have declared : Declares l name :=
    ⟨p, List.mem_of_getElem? hp, exists_grade?_iff.1 ⟨_, graded⟩⟩
  obtain ⟨j, hj⟩ := Option.ne_none_iff_exists'.1 fun none => bestMatch?_eq_none_iff.1 none declared
  obtain ⟨k, least'⟩ := isLeast_of_bestMatch? hj
  have same : (k, j) = (g, i) := toLex.injective (least'.unique least)
  rw [hj, (Prod.mk.inj same).2]

/-! ### The parameter that is meant -/

theorem meant?_eq_some_iff : meant? l name = some p ↔
    ∃ i g, l[i]? = some p ∧ IsLeast (answers l name) (toLex (g, i)) := by
  rw [meant?, Option.bind_eq_some_iff]
  simp only [bestMatch?_eq_some_iff]
  constructor
  · rintro ⟨i, ⟨g, least⟩, hp⟩
    exact ⟨i, g, hp, least⟩
  · rintro ⟨i, g, hp, least⟩
    exact ⟨i, ⟨g, least⟩, hp⟩

theorem meant?_eq_none_iff : meant? l name = none ↔ ¬ Declares l name := by
  rw [← bestMatch?_eq_none_iff, meant?]
  cases h : bestMatch? l name with
  | none => simp
  | some i =>
    obtain ⟨_, ⟨_, p, _, hp, _, eq⟩, _⟩ := bestMatch?_eq_some_iff.1 h
    obtain ⟨-, rfl⟩ := Prod.mk.inj (toLex.injective eq)
    simp [hp]

theorem exists_grade?_of_meant? (h : meant? l name = some p) :
    ∃ g, p.grade? name = some g ∧ ∀ q ∈ l, ∀ k, q.grade? name = some k → g ≤ k := by
  obtain ⟨i, g, hp, ⟨_, p', _, hp', graded, eq⟩, least⟩ := meant?_eq_some_iff.1 h
  obtain ⟨rfl, rfl⟩ := Prod.mk.inj (toLex.injective eq)
  obtain rfl : p' = p := Option.some.inj (hp'.symm.trans hp)
  refine ⟨_, graded, fun q hq k hk => ?_⟩
  obtain ⟨j, hj⟩ := List.getElem?_of_mem hq
  have le := least ⟨j, q, k, hj, hk, rfl⟩
  rw [Prod.Lex.toLex_le_toLex] at le
  exact le.elim le_of_lt fun same => same.1.le

theorem of_meant? (h : meant? l name = some p) :
    p ∈ l ∧ (p.name = name ∨ p.isSimilar name = true) := by
  obtain ⟨i, _, hp, _⟩ := meant?_eq_some_iff.1 h
  obtain ⟨g, graded, _⟩ := exists_grade?_of_meant? h
  exact ⟨List.mem_of_getElem? hp, exists_grade?_iff.1 ⟨g, graded⟩⟩

theorem meant?_of_unnamed (other : ∀ q ∈ l, q.name ≠ name) :
    meant? l name = l.find? (·.isSimilar name) := by
  have inPath : l.findIdx? (fun p => p.location == .path && p.name == name) = none := by
    rw [List.findIdx?_eq_none_iff]
    intro q hq
    rw [beq_eq_false_iff_ne.2 (other q hq), Bool.and_false]
  have exact : l.findIdx? (·.name == name) = none := by
    rw [List.findIdx?_eq_none_iff]
    intro q hq
    exact beq_eq_false_iff_ne.2 (other q hq)
  rw [meant?, bestMatch?, inPath, exact, List.find?_eq_bind_findIdx?_getElem?]
  rfl

structure BestAnswer (l : List Parameter) (name : String) (p : Parameter) : Prop where
  mem : p ∈ l
  byName : (∃ q ∈ l, q.name = name) → p.name = name
  inPath : p.location ≠ .path → ∀ q ∈ l, q.location = .path → q.name ≠ name
  firstSimilar : (∀ q ∈ l, q.name ≠ name) → l.find? (·.isSimilar name) = some p

theorem bestAnswer_of_meant? (h : meant? l name = some p) : BestAnswer l name p := by
  obtain ⟨g, graded, best⟩ := exists_grade?_of_meant? h
  rw [grade?_eq_some_iff] at graded
  constructor
  case mem => exact (of_meant? h).1
  case byName =>
    rintro ⟨q, hq, same⟩
    have low : ∃ k, q.grade? name = some k ∧ k ≤ 1 := by
      by_cases path : q.location = .path
      · exact ⟨0, grade?_eq_some_iff.2 (.inl ⟨rfl, same, path⟩), by decide⟩
      · exact ⟨1, grade?_eq_some_iff.2 (.inr (.inl ⟨rfl, same, path⟩)), le_rfl⟩
    obtain ⟨k, hk, bound⟩ := low
    have le := (best q hq k hk).trans bound
    rcases graded with ⟨_, exact, _⟩ | ⟨_, exact, _⟩ | ⟨rfl, _⟩
    · exact exact
    · exact exact
    · exact absurd le (by decide)
  case inPath =>
    intro outside q hq path same
    have le := best q hq 0 (grade?_eq_some_iff.2 (.inl ⟨rfl, same, path⟩))
    rcases graded with ⟨_, _, inside⟩ | ⟨rfl, _⟩ | ⟨rfl, _⟩
    · exact outside inside
    · exact absurd le (by decide)
    · exact absurd le (by decide)
  case firstSimilar =>
    intro other
    rw [← meant?_of_unnamed other, h]

/-- A placeholder means the first parameter of the best grade, if any answers to it. Its very name
comes before a similar one, and with the very name the path comes before other locations. -/
theorem bestMatch?_isLeast (l : List Parameter) (name : String) :
    (∀ i, bestMatch? l name = some i ↔ ∃ g, IsLeast (answers l name) (toLex (g, i))) ∧
      (Declares l name → ∃ p, meant? l name = some p ∧ BestAnswer l name p) ∧
      (¬ Declares l name → meant? l name = none) := by
  refine ⟨fun i => bestMatch?_eq_some_iff, fun declared => ?_, meant?_eq_none_iff.2⟩
  have found : meant? l name ≠ none := fun none => meant?_eq_none_iff.1 none declared
  obtain ⟨p, hp⟩ := Option.ne_none_iff_exists'.1 found
  exact ⟨p, hp, bestAnswer_of_meant? hp⟩

theorem bestMatch?_isLeast_item :
    let l : List Parameter := [.plain "itemId" .path "string", .plain "item_id" .query "string",
      .plain "item_id" .path "integer", .plain "itemId" .query "string"]
    Declares l "item_id" ∧ (∃ g, IsLeast (answers l "item_id") (toLex (g, 2))) ∧
      ∃ p, meant? l "item_id" = some p ∧ BestAnswer l "item_id" p := by
  intro l
  obtain ⟨least, found, _⟩ := bestMatch?_isLeast l "item_id"
  have declared : Declares l "item_id" := ⟨l[1], List.getElem_mem (by decide), .inl rfl⟩
  exact ⟨declared, (least 2).1 (by decide +kernel), found declared⟩

/-- Of two parameters with a similar name the one in the query is meant if it comes first. -/
theorem meant?_inQuery_item :
    let inQuery : Parameter := .plain "itemId" .query "string"
    let inPath : Parameter := .plain "itemId" .path "string"
    let l := [inQuery, inPath]
    (∀ p ∈ l, p.name ≠ "item_id") ∧ inPath.isSimilar "item_id" = true ∧
      meant? l "item_id" = some inQuery := by
  decide +kernel

end ApiModel.Parameter
