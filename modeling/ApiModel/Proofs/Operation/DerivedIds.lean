import Mathlib.Data.List.DropRight
import ApiModel.Operation
import ApiModel.Proofs.Name
import ApiModel.Proofs.PathTemplate.Pieces

/-! Ids that are derived from paths. A segment that begins with a brace is left out, and no other
one, so a placeholder gets into the id if its segment begins with text, or if it has a slash of its
own. Any other placeholder can be renamed and the id is the same. -/

namespace ApiModel

section Pieces

variable {α : Type} {p : α → Bool} {a : α} {l : List α}

theorem splitAtEach_cons_of_neg (h : p a = false) (l : List α) :
    splitAtEach p (a :: l) = (splitAtEach p l).modifyHead (a :: ·) := by
  rw [splitAtEach, h, if_neg Bool.false_ne_true]
  cases split : splitAtEach p l with
  | nil => exact absurd split (splitAtEach_ne_nil p l)
  | cons piece pieces => rfl

theorem splitAtEach_append_of_clear (clear : ∀ a ∈ l, p a = false) (m : List α) :
    splitAtEach p (l ++ m) = (splitAtEach p m).modifyHead (l ++ ·) := by
  induction l with
  | nil => exact (congrFun List.modifyHead_id _).symm
  | cons a l ih =>
    obtain ⟨first, later⟩ := List.forall_mem_cons.1 clear
    rw [List.cons_append, splitAtEach_cons_of_neg first, ih later, List.modifyHead_modifyHead]
    rfl

theorem exists_splitAtEach_append (p : α → Bool) (l : List α) : ∃ front, ∀ m,
    splitAtEach p (l ++ m) = front ++ (splitAtEach p m).modifyHead (l.rtakeWhile (!p ·) ++ ·) := by
  induction l using List.reverseRecOn with
  | nil => exact ⟨[], fun m => (congrFun List.modifyHead_id _).symm⟩
  | append_singleton l a ih =>
    obtain ⟨front, split⟩ := ih
    cases cut : p a with
    | true =>
      refine ⟨front ++ [l.rtakeWhile (!p ·)], fun m => ?_⟩
      have last : (l ++ [a]).rtakeWhile (!p ·) = [] :=
        List.rtakeWhile_concat_neg _ _ _ (by simp [cut])
      rw [List.append_assoc, List.singleton_append, split, splitAtEach, cut, if_pos rfl, last,
        List.modifyHead_cons, List.append_nil, List.append_assoc, List.singleton_append]
      exact congrArg (front ++ _ :: ·) (congrFun List.modifyHead_id _).symm
    | false =>
      refine ⟨front, fun m => ?_⟩
      have last : (l ++ [a]).rtakeWhile (!p ·) = l.rtakeWhile (!p ·) ++ [a] :=
        List.rtakeWhile_concat_pos _ _ _ (by simp [cut])
      rw [List.append_assoc, List.singleton_append, split, splitAtEach_cons_of_neg cut,
        List.modifyHead_modifyHead, last]
      simp only [Function.comp_def, List.append_assoc, List.singleton_append]

theorem splitAtEach_append_cons (h : p a = true) (l m : List α) :
    splitAtEach p (l ++ a :: m) = splitAtEach p l ++ splitAtEach p m := by
  obtain ⟨front, split⟩ := exists_splitAtEach_append p l
  have whole := split []
  rw [List.append_nil] at whole
  rw [split, splitAtEach, h, if_pos rfl, whole, List.modifyHead_cons, List.append_assoc]
  rfl

end Pieces

theorem count_intercalate {x y : Char} (ne : y ≠ x) (l : List (List Char)) :
    ([y].intercalate l).count x = l.flatten.count x := by
  induction l with
  | nil => rfl
  | cons s l ih =>
    cases l with
    | nil => rw [List.intercalate_singleton, List.flatten_singleton]
    | cons t l =>
      rw [List.intercalate_cons_cons, List.append_assoc, List.count_append, List.singleton_append,
        List.count_cons_of_ne ne, ih, ← List.count_append, ← List.flatten_cons]

namespace Operation

open PathTemplate (Piece Unbraced read unbraced_append)

variable {x : Char} {cs rest raw s : List Char} {method : Method} {path : String}

def isStatic (s : List Char) : Bool := !s.isEmpty && s.head? != some '{'

theorem isStatic_cons (h : x ≠ '{') (s : List Char) : isStatic (x :: s) = true := by
  simp [isStatic, h]

theorem staticSegments_append_cons (l m : List Char) :
    staticSegments (l ++ '/' :: m) = staticSegments l ++ staticSegments m := by
  unfold staticSegments
  rw [splitAtEach_append_cons rfl, List.filter_append]

theorem count_derivedId (letter : ¬ IsLetter x) (separator : Name.isSeparator x = false)
    (method : Method) (path : String) :
    (derivedId method path).toList.count x = (staticSegments path.toList).flatten.count x := by
  have underscore : '_' ≠ x := by
    rintro rfl
    cases separator
  have letters : (method.text.toList.map Char.toLower).all fun y => decide (IsLetter y) := by
    cases method <;> decide
  have absent : x ∉ method.text.toList.map Char.toLower := fun h =>
    letter (of_decide_eq_true (List.all_eq_true.1 letters x h))
  rw [derivedId, String.toList_ofList, Name.count_identifier letter separator, List.count_append,
    List.count_eq_zero.2 absent, Nat.zero_add, List.count_cons_of_ne underscore,
    count_intercalate underscore]

/-! ### The segment of a placeholder -/

/-- The segment that `cs` ends in has nothing in it yet, or it begins with a brace. -/
def Covers (cs : List Char) : Prop := ∀ x ∈ (cs.rtakeWhile (· != '/')).head?, x = '{'

theorem exists_segments_append (cs : List Char) : ∃ front,
    splitAtEach (· == '/') cs = front ++ [cs.rtakeWhile (· != '/')] ∧ ∀ m,
      splitAtEach (· == '/') (cs ++ m) =
        front ++ (splitAtEach (· == '/') m).modifyHead (cs.rtakeWhile (· != '/') ++ ·) := by
  obtain ⟨front, split⟩ := exists_splitAtEach_append (· == '/') cs
  have whole : splitAtEach (· == '/') (cs ++ []) = front ++ [cs.rtakeWhile (· != '/') ++ []] :=
    split []
  rw [List.append_nil, List.append_nil] at whole
  exact ⟨front, whole, split⟩

theorem exists_segments (cs : List Char) :
    ∃ first later, splitAtEach (· == '/') cs = first :: later :=
  List.exists_cons_of_ne_nil (splitAtEach_ne_nil _ cs)

theorem segments_append_of_clear {l : List Char} (clear : '/' ∉ l) (m : List Char) :
    splitAtEach (· == '/') (l ++ m) = (splitAtEach (· == '/') m).modifyHead (l ++ ·) := by
  apply splitAtEach_append_of_clear
  intro a ha
  rw [beq_eq_false_iff_ne]
  rintro rfl
  exact clear ha

theorem not_isStatic_of_covers (h : Covers cs) (s : List Char) :
    isStatic (cs.rtakeWhile (· != '/') ++ '{' :: s) = false := by
  unfold Covers at h
  cases last : cs.rtakeWhile (· != '/') with
  | nil => rfl
  | cons x l =>
    rw [last] at h
    obtain rfl := h x rfl
    rfl

theorem isStatic_of_not_covers (h : ¬ Covers cs) (s : List Char) :
    isStatic (cs.rtakeWhile (· != '/') ++ s) = true := by
  unfold Covers at h
  cases last : cs.rtakeWhile (· != '/') with
  | nil =>
    rw [last] at h
    exact absurd (fun _ hx => nomatch hx) h
  | cons x l =>
    rw [last] at h
    refine isStatic_cons (fun eq => h fun y hy => ?_) _
    exact (Option.some.inj hy).symm.trans eq

/-- The segments of `cs` that go into an id, but for the first one, which `cs` may go on with. -/
def laterSegments (cs : List Char) : List (List Char) :=
  ((splitAtEach (· == '/') cs).tail).filter isStatic

theorem staticSegments_of_covers (h : Covers cs) (clear : '/' ∉ s) (rest : List Char) :
    staticSegments (cs ++ ('{' :: s ++ rest)) =
      staticSegments (cs ++ ['{']) ++ laterSegments rest := by
  obtain ⟨front, _, split⟩ := exists_segments_append cs
  obtain ⟨first, later, eq⟩ := exists_segments rest
  have clear' : '/' ∉ '{' :: s := by simp [clear]
  have long := split ('{' :: s ++ rest)
  rw [segments_append_of_clear clear', eq, List.modifyHead_cons, List.modifyHead_cons] at long
  have short : splitAtEach (· == '/') (cs ++ ['{']) =
      front ++ [cs.rtakeWhile (· != '/') ++ '{' :: []] := split ['{']
  show (splitAtEach _ _).filter isStatic = (splitAtEach _ _).filter isStatic ++ _
  rw [long, short, laterSegments, eq, List.tail_cons, List.filter_append, List.filter_append,
    List.filter_cons_of_neg, List.filter_cons_of_neg, List.filter_nil, List.append_nil]
  · rw [not_isStatic_of_covers h]
    exact Bool.false_ne_true
  · rw [List.cons_append, not_isStatic_of_covers h]
    exact Bool.false_ne_true

theorem exists_closing_segment {l : List Char} (plain : Unbraced l) (rest : List Char) :
    ∃ front s, staticSegments (l ++ '}' :: rest) = front ++ s :: laterSegments rest ∧ '}' ∈ s := by
  obtain ⟨front, _, split⟩ := exists_segments_append l
  obtain ⟨first, later, eq⟩ := exists_segments rest
  have whole := split ('}' :: rest)
  rw [splitAtEach_cons_of_neg rfl, eq, List.modifyHead_cons, List.modifyHead_cons] at whole
  have static : isStatic (l.rtakeWhile (· != '/') ++ '}' :: first) = true := by
    cases last : l.rtakeWhile (· != '/') with
    | nil => rfl
    | cons x s =>
      have mem : x ∈ l := (List.rtakeWhile_suffix _ _).subset (last ▸ List.mem_cons_self)
      refine isStatic_cons ?_ _
      rintro rfl
      exact plain.1 mem
  refine ⟨front.filter isStatic, l.rtakeWhile (· != '/') ++ '}' :: first, ?_, by simp⟩
  show (splitAtEach _ _).filter isStatic = _
  rw [whole, List.filter_append, List.filter_cons_of_pos static, laterSegments, eq, List.tail_cons]

theorem exists_open_segment (h : ¬ Covers cs) (clear : '/' ∉ s) (rest : List Char) :
    ∃ front l r later, staticSegments (cs ++ ('{' :: s ++ rest)) =
      front ++ (l ++ ('{' :: s ++ r)) :: later := by
  obtain ⟨front, _, split⟩ := exists_segments_append cs
  obtain ⟨first, later, eq⟩ := exists_segments rest
  have clear' : '/' ∉ '{' :: s := by simp [clear]
  have whole := split ('{' :: s ++ rest)
  rw [segments_append_of_clear clear', eq, List.modifyHead_cons, List.modifyHead_cons] at whole
  have static : isStatic (cs.rtakeWhile (· != '/') ++ ('{' :: s ++ first)) = true :=
    isStatic_of_not_covers h _
  refine ⟨front.filter isStatic, cs.rtakeWhile (· != '/'), first, later.filter isStatic, ?_⟩
  show (splitAtEach _ _).filter isStatic = _
  rw [whole, List.filter_append, List.filter_cons_of_pos static]

/-! ### Placeholders -/

def braced (raw : List Char) : List Char := '{' :: (raw ++ ['}'])

theorem staticSegments_braced (h : Covers cs) (clear : '/' ∉ raw) (rest : List Char) :
    staticSegments (cs ++ (braced raw ++ rest)) =
      staticSegments (cs ++ ['{']) ++ laterSegments rest := by
  have clear' : '/' ∉ raw ++ ['}'] := by simp [clear]
  exact staticSegments_of_covers h clear' rest

theorem exists_staticSegments_braced (h : Covers cs) (plain : Unbraced raw) (slash : '/' ∈ raw)
    (rest : List Char) : ∃ front s, staticSegments (cs ++ (braced raw ++ rest)) =
      staticSegments (cs ++ ['{']) ++ (front ++ s :: laterSegments rest) ∧ '}' ∈ s := by
  obtain ⟨before, after, rfl, first⟩ := List.eq_append_cons_of_mem slash
  have plain_after := (unbraced_append.1 plain).2
  obtain ⟨front, s, closing, brace⟩ := exists_closing_segment
    (PathTemplate.unbraced_cons.1 plain_after).2 rest
  have covered : staticSegments (cs ++ '{' :: before) = staticSegments (cs ++ ['{']) := by
    have whole := staticSegments_of_covers h first []
    rwa [List.append_nil, show laterSegments [] = [] from rfl, List.append_nil] at whole
  have path : cs ++ (braced (before ++ '/' :: after) ++ rest) =
      (cs ++ '{' :: before) ++ '/' :: (after ++ '}' :: rest) := by simp [braced]
  refine ⟨front, s, ?_, brace⟩
  rw [path, staticSegments_append_cons, covered, closing]

theorem brace_mem_of_not_covers (h : ¬ Covers cs) (raw rest : List Char) :
    '{' ∈ (staticSegments (cs ++ (braced raw ++ rest))).flatten := by
  obtain ⟨front, l, r, later, whole⟩ :=
    exists_open_segment h (s := []) List.not_mem_nil (raw ++ ['}'] ++ rest)
  have path : braced raw ++ rest = ['{'] ++ (raw ++ ['}'] ++ rest) := by simp [braced]
  rw [path, whole]
  simp

theorem count_le_of_not_covers (h : ¬ Covers cs) (clear : '/' ∉ raw) (rest : List Char) (x : Char) :
    raw.count x ≤ (staticSegments (cs ++ (braced raw ++ rest))).flatten.count x := by
  have clear' : '/' ∉ raw ++ ['}'] := by simp [clear]
  obtain ⟨front, l, r, later, whole⟩ := exists_open_segment h clear' rest
  have among : raw <:+: (front ++ (l ++ ('{' :: (raw ++ ['}']) ++ r)) :: later).flatten :=
    ⟨front.flatten ++ l ++ ['{'], '}' :: r ++ later.flatten, by simp⟩
  rw [braced, whole]
  exact among.sublist.count_le x

/-- Nothing of the placeholder `raw` that comes after `before` gets into an id. -/
structure Hidden (before : List Piece) (raw : String) : Prop where
  covered : Covers (before.flatMap Piece.source)
  unslashed : '/' ∉ raw.toList

structure IsName (raw : String) : Prop where
  ne_empty : raw ≠ ""
  unbraced : Unbraced raw.toList
  unslashed : '/' ∉ raw.toList

def pathAround (before after : List Piece) (raw : String) : String :=
  String.ofList ((before ++ .placeholder raw :: after).flatMap Piece.source)

theorem toList_pathAround (before after : List Piece) (raw : String) :
    (pathAround before after raw).toList = before.flatMap Piece.source ++
      (braced raw.toList ++ after.flatMap Piece.source) := by
  rw [pathAround, String.toList_ofList, List.flatMap_append, List.flatMap_cons]
  rfl

variable {before after : List Piece} {raw' : String}

theorem derivedId_of_hidden {raw : String} (h : Hidden before raw) (name : IsName raw') :
    derivedId method (pathAround before after raw') =
      derivedId method (pathAround before after raw) := by
  unfold derivedId
  rw [toList_pathAround, toList_pathAround, staticSegments_braced h.covered h.unslashed,
    staticSegments_braced h.covered name.unslashed]

theorem isName_ones (n : Nat) : IsName (String.ofList (List.replicate (n + 1) '1')) := by
  have other {x : Char} (ne : x ≠ '1') :
      x ∉ (String.ofList (List.replicate (n + 1) '1')).toList := by
    rw [String.toList_ofList]
    exact fun mem => ne (List.eq_of_mem_replicate mem)
  refine ⟨fun empty => ?_, ⟨other (by decide), other (by decide)⟩, other (by decide)⟩
  have none := congrArg String.toList empty
  rw [String.toList_ofList] at none
  cases none

theorem exists_derivedId_ne {raw : String} (plain : Unbraced raw.toList) (h : ¬ Hidden before raw)
    (method : Method) (after : List Piece) : ∃ raw', IsName raw' ∧
      derivedId method (pathAround before after raw') ≠
        derivedId method (pathAround before after raw) := by
  by_cases covers : Covers (before.flatMap Piece.source)
  · have slash : '/' ∈ raw.toList := by_contra fun clear => h ⟨covers, clear⟩
    refine ⟨_, isName_ones 0, fun same => ?_⟩
    obtain ⟨front, s, shown, brace⟩ :=
      exists_staticSegments_braced covers plain slash (after.flatMap Piece.source)
    have count := congrArg (fun id => id.toList.count '}') same
    simp only [count_derivedId (x := '}') (by decide) rfl, toList_pathAround, shown,
      staticSegments_braced covers (isName_ones 0).unslashed, List.flatten_append, List.flatten_cons,
      List.count_append] at count
    have some := List.count_pos_iff.2 brace
    omega
  · let n := (derivedId method (pathAround before after raw)).toList.count '1'
    refine ⟨_, isName_ones n, fun same => ?_⟩
    have count := count_le_of_not_covers covers (isName_ones n).unslashed
      (after.flatMap Piece.source) '1'
    rw [← toList_pathAround, ← count_derivedId (by decide) rfl method, same, String.toList_ofList,
      List.count_replicate_self] at count
    exact Nat.not_succ_le_self n count

theorem mem_derivedId_iff (letter : ¬ IsLetter x) (separator : Name.isSeparator x = false) :
    x ∈ (derivedId method path).toList ↔ x ∈ (staticSegments path.toList).flatten := by
  rw [← List.count_pos_iff, count_derivedId letter separator, List.count_pos_iff]

theorem unbraced_derivedId_iff :
    Unbraced (derivedId method path).toList ↔ Unbraced (staticSegments path.toList).flatten := by
  unfold Unbraced
  rw [mem_derivedId_iff (by decide) rfl, mem_derivedId_iff (by decide) rfl]

theorem not_unbraced_of_not_hidden {raw : String} (plain : Unbraced raw.toList)
    (h : ¬ Hidden before raw) (after : List Piece) :
    ¬ Unbraced (staticSegments (pathAround before after raw).toList).flatten := by
  rw [toList_pathAround]
  by_cases covers : Covers (before.flatMap Piece.source)
  · have slash : '/' ∈ raw.toList := by_contra fun clear => h ⟨covers, clear⟩
    obtain ⟨front, s, shown, brace⟩ :=
      exists_staticSegments_braced covers plain slash (after.flatMap Piece.source)
    refine fun unbraced => unbraced.2 (List.mem_flatten.2 ⟨s, ?_, brace⟩)
    rw [shown]
    simp
  · exact fun unbraced => unbraced.1 (brace_mem_of_not_covers covers _ _)

theorem unbraced_of_mem_segments (plain : Unbraced cs) (hs : s ∈ splitAtEach (· == '/') cs) :
    Unbraced s := by
  have among {x : Char} (hx : x ∈ s) : x ∈ cs := by
    have mem : x ∈ (splitAtEach (· == '/') cs).flatten := List.mem_flatten.2 ⟨s, hs, hx⟩
    rw [flatten_splitAtEach] at mem
    exact (List.mem_filter.1 mem).1
  exact ⟨fun mem => plain.1 (among mem), fun mem => plain.2 (among mem)⟩

theorem unbraced_append_text {text : List Char} (plain : Unbraced text)
    (h : ∀ s ∈ staticSegments cs, Unbraced s) : ∀ s ∈ staticSegments (cs ++ text), Unbraced s := by
  obtain ⟨front, old, split⟩ := exists_segments_append cs
  obtain ⟨first, later, eq⟩ := exists_segments text
  have new := split text
  rw [eq, List.modifyHead_cons] at new
  have earlier : ∀ s ∈ front ++ [cs.rtakeWhile (· != '/')], isStatic s = true → Unbraced s :=
    fun s hs static => h s (List.mem_filter.2 ⟨old ▸ hs, static⟩)
  have later : ∀ s ∈ first :: later, Unbraced s :=
    fun s hs => unbraced_of_mem_segments plain (eq ▸ hs)
  intro s hs
  obtain ⟨mem, static⟩ := List.mem_filter.1 hs
  rw [new] at mem
  rcases List.mem_append.1 mem with mem | mem
  · exact earlier s (List.mem_append_left _ mem) static
  rcases List.mem_cons.1 mem with rfl | mem
  · have begun : Unbraced (cs.rtakeWhile (· != '/')) := by
      cases last : cs.rtakeWhile (· != '/') with
      | nil => exact PathTemplate.unbraced_nil
      | cons x l =>
        rw [last] at static earlier
        exact earlier (x :: l) (by simp) static
    exact unbraced_append.2 ⟨begun, later first List.mem_cons_self⟩
  · exact later s (List.mem_cons_of_mem _ mem)

theorem mem_staticSegments_of_covers (h : Covers cs) (hs : s ∈ staticSegments (cs ++ ['{'])) :
    s ∈ staticSegments cs := by
  obtain ⟨front, old, split⟩ := exists_segments_append cs
  have new : splitAtEach (· == '/') (cs ++ ['{']) =
      front ++ [cs.rtakeWhile (· != '/') ++ '{' :: []] := split ['{']
  obtain ⟨mem, static⟩ := List.mem_filter.1 hs
  rw [new] at mem
  refine List.mem_filter.2 ⟨?_, static⟩
  rw [old]
  rcases List.mem_append.1 mem with mem | mem
  · exact List.mem_append_left _ mem
  · obtain rfl := List.mem_singleton.1 mem
    exact absurd ((not_isStatic_of_covers h []).symm.trans static) Bool.false_ne_true

theorem unbraced_of_hidden {pieces : List Piece} (plain : ∀ p ∈ pieces, p.Plain)
    (h : ∀ before raw after, pieces = before ++ .placeholder raw :: after → Hidden before raw) :
    ∀ s ∈ staticSegments (pieces.flatMap Piece.source), Unbraced s := by
  induction pieces using List.reverseRecOn with
  | nil => exact fun s hs => absurd hs List.not_mem_nil
  | append_singleton pieces p ih =>
    have before := ih (fun q hq => plain q (List.mem_append_left _ hq)) fun b raw a eq =>
      h b raw (a ++ [p]) (by rw [eq, List.append_assoc, List.cons_append])
    have last : p.Plain := plain p (List.mem_append_right _ (List.mem_singleton_self p))
    rw [List.flatMap_append, List.flatMap_singleton]
    cases p with
    | text s => exact unbraced_append_text last.2 before
    | placeholder raw =>
      obtain ⟨covers, clear⟩ := h pieces raw [] rfl
      have shown := staticSegments_braced covers clear []
      rw [List.append_nil, show laterSegments [] = [] from rfl, List.append_nil] at shown
      intro s hs
      exact before s (mem_staticSegments_of_covers covers (shown ▸ hs))

section Reading

variable {raw : String} (pieces : (read path).pieces = before ++ .placeholder raw :: after)
include pieces

theorem unbraced_placeholder : Unbraced raw.toList :=
  PathTemplate.plain_read path (.placeholder raw) (by simp [pieces])

theorem pathAround_eq (balanced : (read path).balanced = true) :
    pathAround before after raw = path := by
  rw [pathAround, ← pieces, PathTemplate.flatMap_source_read balanced, String.ofList_toList]

end Reading

theorem unbraced_derivedId_iff_hidden (method : Method) (balanced : (read path).balanced = true) :
    Unbraced (derivedId method path).toList ↔ ∀ before raw after,
      (read path).pieces = before ++ .placeholder raw :: after → Hidden before raw := by
  rw [unbraced_derivedId_iff]
  constructor
  · intro unbraced before raw after pieces
    by_contra shown
    have braced := not_unbraced_of_not_hidden (unbraced_placeholder pieces) shown after
    rw [pathAround_eq pieces balanced] at braced
    exact braced unbraced
  · intro hidden
    have each := unbraced_of_hidden (PathTemplate.plain_read path) hidden
    rw [PathTemplate.flatMap_source_read balanced] at each
    constructor <;> intro brace <;> obtain ⟨s, hs, mem⟩ := List.mem_flatten.1 brace
    · exact (each s hs).1 mem
    · exact (each s hs).2 mem

/-- A derived id has braces in it exactly if some placeholder is not hidden, and the placeholders
that are hidden are those that can be renamed. -/
theorem derivedId_placeholders (method : Method) (balanced : (read path).balanced = true) :
    (Unbraced (derivedId method path).toList ↔ ∀ before raw after,
      (read path).pieces = before ++ .placeholder raw :: after → Hidden before raw) ∧
    ∀ before raw after, (read path).pieces = before ++ .placeholder raw :: after →
      ((∀ raw', IsName raw' → derivedId method (pathAround before after raw') =
        derivedId method path) ↔ Hidden before raw) := by
  refine ⟨unbraced_derivedId_iff_hidden method balanced, fun before raw after pieces => ?_⟩
  have whole := pathAround_eq pieces balanced
  constructor
  · intro same
    by_contra shown
    obtain ⟨raw', name, differs⟩ :=
      exists_derivedId_ne (unbraced_placeholder pieces) shown method after
    exact differs ((same raw' name).trans (by rw [whole]))
  · intro hidden raw' name
    rw [derivedId_of_hidden hidden name, whole]

theorem derivedId_placeholders_tag :
    let path := "/pets/{petId}-{tag}/-{id}"
    (read path).balanced = true ∧ ¬ Unbraced (derivedId .get path).toList ∧
      ∀ raw', IsName raw' → derivedId .get (pathAround
        [.text "/pets/", .placeholder "petId", .text "-"] [.text "/-", .placeholder "id"] raw') =
          "getPets{id}" := by
  intro path
  have balanced : (read path).balanced = true := by decide +kernel
  obtain ⟨braces, names⟩ := derivedId_placeholders .get balanced
  have pieces : (read path).pieces = [.text "/pets/", .placeholder "petId", .text "-"] ++
      .placeholder "tag" :: [.text "/-", .placeholder "id"] := by decide +kernel
  have last : (read path).pieces =
      [.text "/pets/", .placeholder "petId", .text "-", .placeholder "tag", .text "/-"] ++
        .placeholder "id" :: [] := by decide +kernel
  refine ⟨balanced, fun unbraced => ?_, fun raw' name => ?_⟩
  · have hidden := braces.1 unbraced _ _ _ last
    exact absurd (hidden.covered '-' (by decide +kernel)) (by decide)
  · have first : (([Piece.text "/pets/", .placeholder "petId", .text "-"].flatMap
        Piece.source).rtakeWhile (· != '/')).head? = some '{' := by decide +kernel
    have hidden : Hidden [.text "/pets/", .placeholder "petId", .text "-"] "tag" :=
      ⟨fun x hx => Option.some.inj (hx.symm.trans first), by decide⟩
    have whole : derivedId .get path = "getPets{id}" := by decide +kernel
    exact ((names _ _ _ pieces).2 hidden raw' name).trans whole

/-- A hyphen before the placeholder makes its segment one of the static ones. -/
theorem derivedId_afterHyphen :
    (read "/pets/-{petId}").balanced = true ∧
      derivedId .get "/pets/-{petId}" = "getPets{petId}" ∧
      ¬ Unbraced (derivedId .get "/pets/-{petId}").toList ∧
      IsName "id" ∧ pathAround [.text "/pets/-"] [] "petId" = "/pets/-{petId}" ∧
      derivedId .get (pathAround [.text "/pets/-"] [] "id") ≠ derivedId .get "/pets/-{petId}" := by
  have named : IsName "id" := ⟨by decide, ⟨by decide, by decide⟩, by decide⟩
  have id : derivedId .get "/pets/-{petId}" = "getPets{petId}" := by decide +kernel
  have braces : ¬ Unbraced (derivedId .get "/pets/-{petId}").toList := by
    rw [id]
    exact fun unbraced => unbraced.1 (by decide)
  exact ⟨by decide +kernel, id, braces, named, by decide +kernel, by decide +kernel⟩

end Operation

end ApiModel
