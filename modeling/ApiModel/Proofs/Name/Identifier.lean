import ApiModel.Proofs.Name

/-! Identifiers that are made of names. None is empty or reserved or begins with a digit, but that
they are words is up to the names: what is neither part of an identifier nor a separator passes from
a name into its identifier. -/

namespace ApiModel.Name

variable {s t : List Char}

/-- What stands neither in an identifier nor between the words of a name. -/
def IsStray (c : Char) : Prop := ¬ IsWordChar c ∧ isSeparator c = false

instance (c : Char) : Decidable (IsStray c) := inferInstanceAs (Decidable (_ ∧ _))

structure IsSafe (t : List Char) : Prop where
  ne_nil : t ≠ []
  start : ∀ c ∈ t.head?, c.isDigit = false
  unreserved : isReserved t = false
  word : IsWord t

/-- `t` is safe but for the stray characters of the name `s`, which it has all, in their order. -/
structure Derives (s t : List Char) : Prop where
  ne_nil : t ≠ []
  start : ∀ c ∈ t.head?, c.isDigit = false
  unreserved : isReserved t = false
  strays : t.filter (¬ IsWordChar ·) = s.filter (IsStray ·)
  safe_iff : IsSafe t ↔ ∀ c ∈ s, ¬ IsStray c

theorem isWord_iff_of_strays (h : t.filter (¬ IsWordChar ·) = s.filter (IsStray ·)) :
    IsWord t ↔ ∀ c ∈ s, ¬ IsStray c := by
  have word : t.filter (¬ IsWordChar ·) = [] ↔ IsWord t := by
    simp [List.filter_eq_nil_iff, IsWord]
  rw [← word, h, List.filter_eq_nil_iff]
  simp only [decide_eq_true_eq]

theorem isReserved_underscore_cons (t : List Char) : isReserved ('_' :: t) = false := by
  have initials : ∀ w ∈ reserved, w.toList.head? ≠ some '_' := by decide
  rw [isReserved, List.contains_eq_mem, decide_eq_false_iff_not]
  intro mem
  exact initials _ mem (by rw [String.toList_ofList]; rfl)

theorem identifier_underscored (s : List Char) : (∃ t, identifier s = '_' :: t) ∨
    (∀ c ∈ (identifier s).head?, c.isDigit = false) ∧ isReserved (identifier s) = false := by
  unfold identifier
  generalize (if isConstant s then s else camelCase s) = spelled
  dsimp only
  split
  next => exact .inl ⟨_, rfl⟩
  next =>
    split
    next => exact .inl ⟨_, rfl⟩
    next fine =>
      rw [Bool.or_eq_true, not_or, Option.any_eq_true] at fine
      exact .inr (by simpa using fine)

theorem filter_not_isWordChar_identifier (s : List Char) :
    (identifier s).filter (¬ IsWordChar ·) = s.filter (IsStray ·) := by
  have letters (c : Char) (h : IsLetter c) : decide (IsStray c) = false := by
    simp [IsStray, IsWordChar, h]
  have separators (c : Char) (h : isSeparator c = true) : decide (IsStray c) = false := by
    simp [IsStray, h]
  rw [← filter_identifier letters separators s]
  refine List.filter_congr fun c hc => ?_
  rw [decide_eq_decide]
  refine ⟨fun other => ⟨other, ?_⟩, And.left⟩
  rcases mem_of_mem_identifier hc with ⟨_, separator⟩ | letter | underscore
  · exact separator
  · exact absurd (.inl letter) other
  · exact absurd (.inr (.inr underscore)) other

theorem derives_identifier (s : List Char) : Derives s (identifier s) := by
  have start : ∀ c ∈ (identifier s).head?, c.isDigit = false := by
    rcases identifier_underscored s with ⟨t, eq⟩ | ⟨start, _⟩
    · rw [eq]
      intro c hc
      cases hc
      rfl
    · exact start
  have unreserved : isReserved (identifier s) = false := by
    rcases identifier_underscored s with ⟨t, eq⟩ | ⟨_, unreserved⟩
    · rw [eq, isReserved_underscore_cons]
    · exact unreserved
  have strays := filter_not_isWordChar_identifier s
  refine ⟨identifier_ne_nil s, start, unreserved, strays, ?_⟩
  rw [← isWord_iff_of_strays strays]
  exact ⟨IsSafe.word, fun word => ⟨identifier_ne_nil s, start, unreserved, word⟩⟩

end ApiModel.Name
