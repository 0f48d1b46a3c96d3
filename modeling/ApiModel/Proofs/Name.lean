import ApiModel.Name

/-! Characters of respelled names. Casing brings in letters only, an identifier has underscores
besides, and any other character of it stands in the source name as well. -/

namespace ApiModel

/-- A letter of ASCII, or any character beyond. -/
def IsLetter (x : Char) : Prop := x.isAlpha = true ∨ 128 ≤ x.toNat

instance (x : Char) : Decidable (IsLetter x) := inferInstanceAs (Decidable (_ ∨ _))

def IsWordChar (c : Char) : Prop := IsLetter c ∨ c.isDigit = true ∨ c = '_'

instance (c : Char) : Decidable (IsWordChar c) := inferInstanceAs (Decidable (_ ∨ _))

def IsWord (s : List Char) : Prop := ∀ c ∈ s, IsWordChar c

instance (s : List Char) : Decidable (IsWord s) := List.decidableBAll IsWordChar s

theorem forall_ascii {P : Char → Prop} (h : ∀ n < 128, P (Char.ofNat n)) (c : Char)
    (small : c.toNat < 128) : P c := Char.ofNat_toNat c ▸ h c.toNat small

theorem Name.isSeparator_of_isLetter {c : Char} (h : IsLetter c) : isSeparator c = false := by
  rw [Bool.eq_false_iff]
  intro separator
  simp only [isSeparator, Bool.or_eq_true, beq_iff_eq] at separator
  rcases separator with ((rfl | rfl) | rfl) | rfl <;> exact absurd h (by decide)

namespace Casing

variable {c x : Char} {s : List Char} {ascii : Char → Char} {expansions : List (Nat × List Nat)}
  {runs : List Run}

/-- One way to change case: it maps letters of ASCII to such, and by its tables characters beyond to
letters. -/
structure GivesLetters (ascii : Char → Char) (expansions : List (Nat × List Nat))
    (runs : List Run) : Prop where
  small : ∀ c : Char, c.toNat < 128 → ascii c = c ∨ IsLetter c ∧ IsLetter (ascii c)
  image : ∀ e ∈ expansions, ∀ n ∈ e.2, IsLetter (Char.ofNat n)
  run : ∀ r ∈ runs, ∀ n ∈ List.range' r.first (r.last + 1 - r.first),
    IsLetter (Char.ofNat (r.image n))

theorem givesLetters_upper : GivesLetters Char.toUpper upperExpansions upperRuns where
  small := forall_ascii (by decide)
  image := by decide +kernel
  run := by decide +kernel

theorem givesLetters_lower : GivesLetters Char.toLower lowerExpansions lowerRuns where
  small := forall_ascii (by decide)
  image := by decide +kernel
  run := by decide +kernel

theorem toLower_eq_or_isLetter (c : Char) :
    c.toLower = c ∨ IsLetter c ∧ IsLetter c.toLower := by
  by_cases small : c.toNat < 128
  · exact givesLetters_lower.small c small
  · refine .inl (dif_neg fun capital => small ?_)
    exact Nat.lt_of_le_of_lt (UInt32.le_iff_toNat_le.1 capital.2) (by decide)

namespace GivesLetters

variable (letters : GivesLetters ascii expansions runs)
include letters

theorem of_mem_mapped (h : x ∈ mapped expansions runs c) : x = c ∨ IsLetter x := by
  unfold mapped at h
  split at h
  next image found =>
    obtain ⟨n, hn, rfl⟩ := List.mem_map.1 h
    obtain ⟨before, after, entry, _⟩ := List.lookup_eq_some_iff.1 found
    have mem : (c.toNat, image) ∈ expansions := entry ▸ List.mem_append_right _ List.mem_cons_self
    exact .inr (letters.image _ mem n hn)
  next =>
    split at h
    next r found =>
      obtain rfl := List.mem_singleton.1 h
      have covers := List.find?_some found
      have place : c.toNat ∈ List.range' r.first (r.last + 1 - r.first) := by
        simp only [Run.covers, Bool.and_eq_true, decide_eq_true_eq] at covers
        rw [List.mem_range'_1]
        omega
      exact .inr (letters.run r (List.mem_of_find?_eq_some found) _ place)
    next => exact .inl (List.mem_singleton.1 h)

theorem of_mem (h : x ∈ if c.toNat < 128 then [ascii c] else mapped expansions runs c) :
    x = c ∨ IsLetter x := by
  split at h
  next small =>
    obtain rfl := List.mem_singleton.1 h
    exact (letters.small c small).imp_right And.right
  next => exact letters.of_mem_mapped h

theorem eq_of_not_isLetter (letter : ¬ IsLetter c) :
    (if c.toNat < 128 then [ascii c] else mapped expansions runs c) = [c] := by
  have small : c.toNat < 128 := Nat.lt_of_not_le fun beyond => letter (.inr beyond)
  rw [if_pos small, (letters.small c small).resolve_right fun both => letter both.1]

end GivesLetters

/-- `f` spells the first character of a text anew: that brings in letters only, and a character
that is no letter stays. -/
structure RespellsFirst (f : List Char → List Char) : Prop where
  nil : f [] = []
  cons : ∀ c s, ∃ image, f (c :: s) = image ++ s ∧
    (∀ x ∈ image, x = c ∨ IsLetter x) ∧ (¬ IsLetter c → image = [c])

theorem respellsFirst_capitalize : RespellsFirst capitalize where
  nil := rfl
  cons c _ := ⟨upper c, rfl, fun _ => givesLetters_upper.of_mem,
    givesLetters_upper.eq_of_not_isLetter⟩

theorem respellsFirst_decapitalize : RespellsFirst decapitalize where
  nil := rfl
  cons c _ := ⟨lower c, rfl, fun _ => givesLetters_lower.of_mem,
    givesLetters_lower.eq_of_not_isLetter⟩

namespace RespellsFirst

variable {f : List Char → List Char} (respells : RespellsFirst f)
include respells

theorem mem_or_isLetter (h : x ∈ f s) : x ∈ s ∨ IsLetter x := by
  cases s with
  | nil => exact .inl (respells.nil ▸ h)
  | cons c s =>
    obtain ⟨image, spelled, origin, _⟩ := respells.cons c s
    rw [spelled] at h
    rcases List.mem_append.1 h with first | rest
    · exact (origin x first).imp_left fun eq => List.mem_cons.2 (.inl eq)
    · exact .inl (List.mem_cons_of_mem c rest)

theorem filter_eq {P : Char → Bool} (letters : ∀ y, IsLetter y → P y = false) (s : List Char) :
    (f s).filter P = s.filter P := by
  cases s with
  | nil => rw [respells.nil]
  | cons c s =>
    obtain ⟨image, spelled, origin, kept⟩ := respells.cons c s
    rw [spelled]
    by_cases letter : IsLetter c
    · have dropped : ∀ y ∈ image, ¬ P y = true := by
        intro y hy
        rcases origin y hy with rfl | new
        · simp [letters y letter]
        · simp [letters y new]
      rw [List.filter_append, List.filter_eq_nil_iff.2 dropped, List.nil_append,
        List.filter_cons_of_neg (by simp [letters c letter])]
    · rw [kept letter, List.singleton_append]

end RespellsFirst

end Casing

namespace Name

variable {x : Char} {s w : List Char}

theorem mem_of_mem_words (hw : w ∈ words s) (h : x ∈ w) : x ∈ s ∧ isSeparator x = false := by
  have mem : x ∈ (splitAtEach isSeparator s).flatten :=
    List.mem_flatten.2 ⟨w, (List.mem_filter.1 hw).1, h⟩
  rw [flatten_splitAtEach] at mem
  simpa using List.mem_filter.1 mem

theorem mem_or_isLetter_of_mem_camelCase (h : x ∈ camelCase s) :
    x ∈ s ∧ isSeparator x = false ∨ IsLetter x := by
  unfold camelCase at h
  split at h
  next => cases h
  next first rest eq =>
    have among {w : List Char} (hw : w ∈ first :: rest) (hx : x ∈ w ∨ IsLetter x) :
        x ∈ s ∧ isSeparator x = false ∨ IsLetter x := hx.imp_left (mem_of_mem_words (eq ▸ hw))
    rcases List.mem_append.1 h with h | h
    · exact among List.mem_cons_self (Casing.respellsFirst_decapitalize.mem_or_isLetter h)
    · obtain ⟨w, hw, h⟩ := List.mem_flatMap.1 h
      exact among (List.mem_cons_of_mem first hw)
        (Casing.respellsFirst_capitalize.mem_or_isLetter h)

theorem isLetter_or_underscore_of_isConstant (constant : isConstant s = true) (h : x ∈ s) :
    IsLetter x ∨ x = '_' := by
  have capital : x.isUpper = true ∨ x = '_' := by
    have all := List.all_eq_true.1 (Bool.and_eq_true_iff.1 constant).2 x h
    simpa using all
  refine capital.imp_left fun upper => .inl ?_
  show (x.isUpper || x.isLower) = true
  rw [upper, Bool.true_or]

theorem isLetter_or_underscore_of_mem_empty (h : x ∈ "_empty".toList) :
    IsLetter x ∨ x = '_' := by
  -- By the list: a statement on every character is decided by trying every character there is.
  have key : "_empty".toList.all fun x => decide (IsLetter x ∨ x = '_') := by decide
  exact of_decide_eq_true (List.all_eq_true.1 key x h)

theorem mem_of_mem_identifier (h : x ∈ identifier s) :
    x ∈ s ∧ isSeparator x = false ∨ IsLetter x ∨ x = '_' := by
  unfold identifier at h
  generalize spells : (if isConstant s then s else camelCase s) = spelled at h
  have source (h : x ∈ spelled) : x ∈ s ∧ isSeparator x = false ∨ IsLetter x ∨ x = '_' := by
    rw [← spells] at h
    split at h
    next constant => exact .inr (isLetter_or_underscore_of_isConstant constant h)
    next => exact (mem_or_isLetter_of_mem_camelCase h).imp_right .inl
  dsimp only at h
  split at h
  next => exact .inr (isLetter_or_underscore_of_mem_empty h)
  next =>
    split at h
    next => exact (List.mem_cons.1 h).elim (fun eq => .inr (.inr eq)) source
    next => exact source h

section Filter

variable {P : Char → Bool} (letters : ∀ y, IsLetter y → P y = false)
  (separators : ∀ y, isSeparator y = true → P y = false)
include letters separators

theorem filter_camelCase (s : List Char) : (camelCase s).filter P = s.filter P := by
  have kept : (words s).flatten.filter P = s.filter P := by
    rw [words, List.flatten_filter_not_isEmpty, flatten_splitAtEach, List.filter_filter]
    refine List.filter_congr fun y _ => ?_
    cases h : isSeparator y with
    | true => rw [separators y h, Bool.false_and]
    | false => rw [Bool.not_false, Bool.and_true]
  rw [← kept, camelCase]
  split
  next eq => rw [eq]; rfl
  next first rest eq =>
    rw [eq, List.flatten_cons, List.filter_append, List.filter_append,
      Casing.respellsFirst_decapitalize.filter_eq letters, List.filter_flatMap, List.filter_flatten]
    simp only [Casing.respellsFirst_capitalize.filter_eq letters]
    rfl

theorem filter_identifier (s : List Char) : (identifier s).filter P = s.filter P := by
  have underscore : ¬ P '_' = true := by simp [separators '_' rfl]
  have spelled : (if isConstant s then s else camelCase s).filter P = s.filter P := by
    split
    next => rfl
    next => exact filter_camelCase letters separators s
  unfold identifier
  rw [← spelled]
  generalize (if isConstant s then s else camelCase s) = spelled
  dsimp only
  split
  next empty =>
    rw [List.isEmpty_iff.1 empty, List.filter_nil, List.filter_eq_nil_iff]
    intro y hy
    rcases isLetter_or_underscore_of_mem_empty hy with letter | rfl
    · simp [letters y letter]
    · exact underscore
  next =>
    split
    next => exact List.filter_cons_of_neg underscore
    next => rfl

end Filter

theorem count_identifier (letter : ¬ IsLetter x) (separator : isSeparator x = false)
    (s : List Char) : (identifier s).count x = s.count x := by
  let P (y : Char) : Bool := !decide (IsLetter y) && !isSeparator y
  have counted (l : List Char) : (l.filter P).count x = l.count x :=
    List.count_filter (by simp [P, letter, separator])
  have same : (identifier s).filter P = s.filter P :=
    filter_identifier (by simp +contextual [P]) (by simp +contextual [P]) s
  rw [← counted, same, counted]

theorem identifier_ne_nil (s : List Char) : identifier s ≠ [] := by
  unfold identifier
  generalize (if isConstant s then s else camelCase s) = spelled
  dsimp only
  split
  next => exact List.cons_ne_nil _ _
  next nonempty =>
    split
    next => exact List.cons_ne_nil _ _
    next => simpa using nonempty

theorem mem_snakeCase_iff (letter : ¬ IsLetter x) (underscore : x ≠ '_') :
    x ∈ snakeCase s ↔ x ∈ s := by
  have small (c : Char) : x = c.toLower ↔ x = c := by
    rcases Casing.toLower_eq_or_isLetter c with eq | ⟨source, image⟩
    · rw [eq]
    · exact iff_of_false (fun eq => letter (eq ▸ image)) fun eq => letter (eq ▸ source)
  have single (c : Char) : x ∈ (if c.isUpper then ['_', c.toLower] else [c]) ↔ x = c := by
    split
    · simp [underscore, small]
    · simp
  cases s with
  | nil => exact Iff.rfl
  | cons first rest => simp [snakeCase, small, single]

end Name

end ApiModel
