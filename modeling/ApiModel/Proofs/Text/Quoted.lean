import Mathlib.Data.List.Basic
import ApiModel.Text.Quoted

/-! String literals of generated code. Between its quotes a literal spells a text, where a backslash
makes the next character literal. Escaped text spells what it was, whatever comes after it; text
that is not escaped spells itself only if nothing in it needs to be. -/

namespace ApiModel

variable {c : Char} {s t raw rest : List Char}

/-- The characters between the quotes of a literal, and the text that they spell. -/
inductive Spells : List Char → List Char → Prop
  | nil : Spells [] []
  | plain {c : Char} {raw s : List Char} (quote : c ≠ '"') (backslash : c ≠ '\\')
      (spells : Spells raw s) : Spells (c :: raw) (c :: s)
  | escaped (c : Char) {raw s : List Char} (spells : Spells raw s) :
      Spells ('\\' :: c :: raw) (c :: s)

def readLiteral : List Char → Option (List Char × List Char)
  | [] => none
  | '"' :: rest => some ([], rest)
  | '\\' :: c :: rest => (readLiteral rest).map fun (s, more) => (c :: s, more)
  | c :: rest => (readLiteral rest).map fun (s, more) => (c :: s, more)

theorem Spells.readLiteral_append (h : Spells raw s) (rest : List Char) :
    readLiteral (raw ++ '"' :: rest) = some (s, rest) := by
  induction h with
  | nil => rfl
  | @plain c raw s quote backslash _ ih =>
    rw [List.cons_append, readLiteral, ih, Option.map_some]
    · exact quote
    · exact fun c _ eq => absurd eq backslash
  | escaped c _ ih =>
    rw [List.cons_append, List.cons_append, readLiteral, ih, Option.map_some]

theorem exists_spells_of_readLiteral (h : readLiteral t = some (s, rest)) :
    ∃ raw, Spells raw s ∧ t = raw ++ '"' :: rest := by
  fun_induction readLiteral t generalizing s with
  | case1 => cases h
  | case2 => cases h; exact ⟨[], .nil, rfl⟩
  | case3 c t ih =>
    obtain ⟨⟨s, more⟩, found, eq⟩ := Option.map_eq_some_iff.1 h
    cases eq
    obtain ⟨raw, spells, rfl⟩ := ih found
    exact ⟨'\\' :: c :: raw, spells.escaped c, rfl⟩
  | case4 c t quote backslash ih =>
    obtain ⟨⟨s, more⟩, found, eq⟩ := Option.map_eq_some_iff.1 h
    cases eq
    obtain ⟨raw, spells, rfl⟩ := ih found
    have letter : c ≠ '\\' := by
      rintro rfl
      cases raw with
      | nil => exact backslash _ _ rfl rfl
      | cons d raw => exact backslash _ _ rfl rfl
    exact ⟨c :: raw, spells.plain quote letter, rfl⟩

/-- Escaping is one pass, as if backslashes were doubled first and quotes escaped after that. -/
theorem escapeLiteral_eq_flatMap_flatMap (s : List Char) :
    escapeLiteral s = (s.flatMap fun c => if c = '\\' then ['\\', '\\'] else [c]).flatMap
      fun c => if c = '"' then ['\\', '"'] else [c] := by
  rw [escapeLiteral, List.flatMap_assoc]
  refine congrArg s.flatMap (funext fun c => ?_)
  by_cases backslash : c = '\\'
  · rw [if_pos (.inl backslash), if_pos backslash, backslash]
    rfl
  · rw [if_neg backslash, List.flatMap_singleton]
    simp only [backslash, false_or]
    split
    next quote => rw [quote]
    next => rfl

theorem spells_escapeLiteral (s : List Char) : Spells (escapeLiteral s) s := by
  induction s with
  | nil => exact .nil
  | cons c s ih =>
    rw [escapeLiteral, List.flatMap_cons]
    split
    next => exact ih.escaped c
    next bare =>
      obtain ⟨backslash, quote⟩ := not_or.1 bare
      exact ih.plain quote backslash

theorem escapeLiteral_injective : Function.Injective escapeLiteral := by
  intro s t eq
  have read := (spells_escapeLiteral s).readLiteral_append []
  rw [eq, (spells_escapeLiteral t).readLiteral_append] at read
  cases read
  rfl

def IsPlain (s : List Char) : Prop := '"' ∉ s ∧ '\\' ∉ s

instance (s : List Char) : Decidable (IsPlain s) := inferInstanceAs (Decidable (_ ∧ _))

theorem Spells.count_quote (h : Spells raw s) : raw.count '"' = s.count '"' := by
  induction h with
  | nil => rfl
  | plain _ _ _ ih => rw [List.count_cons, List.count_cons, ih]
  | escaped c _ ih =>
    rw [List.count_cons_of_ne (by decide), List.count_cons, List.count_cons, ih]

theorem Spells.length_le (h : Spells raw s) : s.length ≤ raw.length := by
  induction h with
  | nil => exact Nat.le_refl 0
  | plain _ _ _ ih => exact Nat.succ_le_succ ih
  | escaped c _ ih => exact Nat.le_succ_of_le (Nat.succ_le_succ ih)

theorem spells_self_iff : Spells s s ↔ IsPlain s := by
  induction s with
  | nil => exact iff_of_true .nil ⟨List.not_mem_nil, List.not_mem_nil⟩
  | cons c s ih =>
    constructor
    · intro h
      cases h with
      | plain quote backslash spells =>
        have plain := ih.1 spells
        exact ⟨List.not_mem_cons_of_ne_of_not_mem quote.symm plain.1,
          List.not_mem_cons_of_ne_of_not_mem backslash.symm plain.2⟩
      | escaped _ spells => exact absurd spells.length_le (Nat.not_succ_le_self _)
    · rintro ⟨quote, backslash⟩
      rw [List.mem_cons, not_or] at quote backslash
      exact .plain (Ne.symm quote.1) (Ne.symm backslash.1) (ih.2 ⟨quote.2, backslash.2⟩)

theorem isPlain_of_readLiteral_append {more : List Char}
    (h : readLiteral (s ++ '"' :: rest) = some (s, more)) : IsPlain s := by
  obtain ⟨raw, spells, eq⟩ := exists_spells_of_readLiteral h
  have same : raw = s := by
    rcases List.append_eq_append_iff.1 eq with ⟨beyond, rfl, tail⟩ | ⟨within, rfl, _⟩
    · cases beyond with
      | nil => exact List.append_nil s
      | cons d beyond =>
        have count := spells.count_quote
        rw [List.count_append, ← (List.cons_eq_cons.1 tail).1, List.count_cons_self] at count
        omega
    · have length := spells.length_le
      rw [List.length_append] at length
      rw [List.length_eq_zero_iff.1 (by omega : within.length = 0), List.append_nil]
  exact spells_self_iff.1 (same ▸ spells)

theorem Spells.getLast?_of_append_quote (h : Spells (raw ++ '"' :: rest) s) :
    raw.getLast? = some '\\' := by
  generalize eq : raw ++ '"' :: rest = all at h
  induction h generalizing raw with
  | nil => exact absurd eq (List.append_ne_nil_of_right_ne_nil raw (List.cons_ne_nil _ _))
  | plain quote _ _ ih =>
    cases raw with
    | nil => exact absurd (List.cons_eq_cons.1 eq).1.symm quote
    | cons d raw =>
      rw [List.getLast?_cons, ih (List.cons_eq_cons.1 eq).2, Option.getD_some]
  | escaped c _ ih =>
    match raw, eq with
    | [d], eq => rw [(List.cons_eq_cons.1 eq).1]; rfl
    | d :: d' :: raw, eq =>
      have inner := ih (List.cons_eq_cons.1 (List.cons_eq_cons.1 eq).2).2
      rw [List.getLast?_cons_cons, List.getLast?_cons, inner, Option.getD_some]

theorem eq_nil_of_append_escapeLiteral {x : List Char}
    (h : ' ' :: '"' :: escapeLiteral s = x ++ ' ' :: '"' :: escapeLiteral t) : x = [] := by
  match x, h with
  | [], _ => rfl
  | [d], h => exact absurd (List.cons_eq_cons.1 (List.cons_eq_cons.1 h).2).1 (by decide)
  | d :: d' :: x, h =>
    have inner := (List.cons_eq_cons.1 (List.cons_eq_cons.1 h).2).2
    have spells := spells_escapeLiteral s
    rw [inner, List.append_eq, List.append_cons] at spells
    have space := spells.getLast?_of_append_quote
    rw [List.getLast?_concat] at space
    cases space

/-- Where an escaped text begins after a space and a quote is seen from its end. -/
theorem eq_of_append_escapeLiteral {x y : List Char}
    (h : x ++ ' ' :: '"' :: escapeLiteral s = y ++ ' ' :: '"' :: escapeLiteral t) :
    x = y ∧ s = t := by
  have same : x = y := by
    rcases List.append_eq_append_iff.1 h with ⟨more, rfl, tail⟩ | ⟨more, rfl, tail⟩
    · rw [eq_nil_of_append_escapeLiteral tail, List.append_nil]
    · rw [eq_nil_of_append_escapeLiteral tail, List.append_nil]
  refine ⟨same, ?_⟩
  rw [same] at h
  have tail := List.append_cancel_left h
  exact escapeLiteral_injective (List.cons_eq_cons.1 (List.cons_eq_cons.1 tail).2).2

end ApiModel
