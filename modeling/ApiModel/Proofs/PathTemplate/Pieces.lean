import Mathlib.Data.List.Chain
import ApiModel.Proofs.Keyed
import ApiModel.Proofs.PathTemplate

/-! The pieces that a path is read into, and the parts that they become. Texts are not empty and
stand apart from each other, no brace is in a text or a name, and each placeholder becomes the
parameter that it means. -/

namespace ApiModel.PathTemplate

variable {path : String} {parameters : List Parameter} {found : List Part}

def Piece.isText : Piece → Bool
  | text _ => true
  | placeholder _ => false

def Piece.name? : Piece → Option String
  | text _ => none
  | placeholder name => some name

def Piece.Plain : Piece → Prop
  | text s => s ≠ "" ∧ Unbraced s.toList
  | placeholder name => Unbraced name.toList

/-- No two texts stand side by side in a list that has texts where `l` is true. -/
def TextsApart (l : List Bool) : Prop := l.IsChain fun a b => ¬ (a = true ∧ b = true)

theorem Unbraced.reverse {s : List Char} (h : Unbraced s) : Unbraced s.reverse :=
  ⟨fun mem => h.1 (List.mem_reverse.1 mem), fun mem => h.2 (List.mem_reverse.1 mem)⟩

theorem plain_textPieces {s : List Char} (h : Unbraced s) : ∀ p ∈ textPieces s, p.Plain := by
  unfold textPieces
  split
  next => exact List.forall_mem_nil _
  next nonempty =>
    refine List.forall_mem_singleton.2 ⟨?_, ?_⟩
    · simpa using nonempty
    · rwa [String.toList_ofList]

theorem plain_readFrom {inside : Bool} {held : List Char} (h : Unbraced held) (cs : List Char) :
    ∀ p ∈ (readFrom inside held cs).pieces, p.Plain := by
  fun_induction readFrom inside held cs
  case case1 => exact List.forall_mem_nil _
  case case2 => exact plain_textPieces h.reverse
  case case3 => exact List.forall_mem_nil _
  case case4 ih => exact List.forall_mem_append.2 ⟨plain_textPieces h.reverse, ih unbraced_nil⟩
  case case5 ih =>
    refine List.forall_mem_append.2 ⟨List.forall_mem_singleton.2 ?_, ih unbraced_nil⟩
    show Unbraced (String.ofList _).toList
    rw [String.toList_ofList]
    exact h.reverse
  case case6 => exact plain_textPieces h.reverse
  case case7 opens closes ih => exact ih (unbraced_cons.2 ⟨⟨opens, closes⟩, h⟩)

theorem textsApart_textPieces (s : List Char) {l : List Bool} (h : TextsApart l)
    (first : ∀ b ∈ l.head?, b = false) :
    TextsApart ((textPieces s).map Piece.isText ++ l) := by
  unfold textPieces
  split
  next => exact h
  next =>
    refine List.isChain_cons.2 ⟨fun b hb => ?_, h⟩
    simp [first b hb]

theorem textsApart_readFrom (inside : Bool) (held cs : List Char) :
    TextsApart ((readFrom inside held cs).pieces.map Piece.isText) ∧
      (inside = true →
        ∀ b ∈ ((readFrom inside held cs).pieces.map Piece.isText).head?, b = false) := by
  have alone (s : List Char) : TextsApart ((textPieces s).map Piece.isText) := by
    simpa using textsApart_textPieces s (l := []) .nil
  fun_induction readFrom inside held cs
  case case1 => simp [TextsApart]
  case case2 => exact ⟨alone _, fun inside => absurd inside ‹_›⟩
  case case3 => simp [TextsApart]
  case case4 ih =>
    refine ⟨?_, fun inside => absurd inside ‹_›⟩
    rw [Reading.after, List.map_append]
    exact textsApart_textPieces _ ih.1 (ih.2 rfl)
  case case5 ih =>
    refine ⟨List.isChain_cons.2 ⟨fun b _ => ?_, ih.1⟩, fun _ b hb => ?_⟩
    · exact fun both => Bool.false_ne_true both.1
    · exact (Option.some.inj hb).symm
  case case6 => exact ⟨alone _, fun inside => absurd inside ‹_›⟩
  case case7 ih => exact ih

theorem plain_read (path : String) : ∀ p ∈ (read path).pieces, p.Plain :=
  plain_readFrom unbraced_nil path.toList

theorem textsApart_read (path : String) : TextsApart ((read path).pieces.map Piece.isText) :=
  (textsApart_readFrom false [] path.toList).1

/-! ### Parts -/

def Part.isText : Part → Bool
  | text _ => true
  | value _ => false

def Part.parameter? : Part → Option Parameter
  | text _ => none
  | value p => some p

inductive Piece.Becomes (parameters : List Parameter) : Piece → Part → Prop
  | text (s : String) : Becomes parameters (.text s) (.text s)
  | value {name : String} {p : Parameter} (meant : Parameter.meant? parameters name = some p) :
      Becomes parameters (.placeholder name) (.value p)

theorem Piece.bind_eq_ok_iff {piece : Piece} {part : Part} :
    piece.bind path parameters = .ok part ↔ piece.Becomes parameters part := by
  constructor
  · intro h
    cases piece with
    | text s =>
      cases h
      exact .text s
    | placeholder name =>
      cases meant : Parameter.meant? parameters name with
      | none =>
        rw [Piece.bind, meant] at h
        cases h
      | some p =>
        rw [Piece.bind, meant] at h
        cases h
        exact .value meant
  · rintro (s | meant)
    · rfl
    · rw [Piece.bind, meant]

theorem parts_eq_ok_iff : parts path parameters = .ok found ↔ (read path).balanced = true ∧
    List.Forall₂ (Piece.Becomes parameters) (read path).pieces found := by
  have bound : (read path).pieces.mapM (·.bind path parameters) = .ok found ↔
      List.Forall₂ (Piece.Becomes parameters) (read path).pieces found := by
    simp only [Failure.mapM_eq_ok_iff, Piece.bind_eq_ok_iff]
  rw [← bound, parts]
  cases (read path).pieces.mapM (·.bind path parameters) with
  | error f => simp [bind, Except.bind]
  | ok parts => cases (read path).balanced <;> simp [bind, Except.bind, pure, Except.pure]

end ApiModel.PathTemplate
