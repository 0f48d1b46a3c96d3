/-!
Collections kept in ascending order of a name, each name at most once. `Keyed α key` is the
sorted list itself with the proof that its keys ascend, so two collections with the same members
are equal. `find?_put` says what a collection answers after a member is put in.
-/

namespace ApiModel

structure Keyed (α : Type) (key : α → String) where
  toList : List α
  ascending : (toList.map key).Pairwise (· < ·)

namespace Keyed

variable {α : Type} {key : α → String}

theorem ext {s t : Keyed α key} (h : s.toList = t.toList) : s = t := by
  cases s; cases t; cases h; rfl

instance [DecidableEq α] : DecidableEq (Keyed α key) := fun s t =>
  decidable_of_iff (s.toList = t.toList) ⟨ext, congrArg toList⟩

def empty : Keyed α key := ⟨[], List.Pairwise.nil⟩

instance : EmptyCollection (Keyed α key) := ⟨empty⟩

instance : Inhabited (Keyed α key) := ⟨empty⟩

def size (s : Keyed α key) : Nat := s.toList.length

def isEmpty (s : Keyed α key) : Bool := s.toList.isEmpty

def keys (s : Keyed α key) : List String := s.toList.map key

def find? (s : Keyed α key) (k : String) : Option α := s.toList.find? (key · == k)

def contains (s : Keyed α key) (k : String) : Bool := (s.find? k).isSome

def place (key : α → String) (a : α) : List α → List α
  | [] => [a]
  | b :: bs =>
    if key a < key b then a :: b :: bs
    else if key a = key b then a :: bs
    else b :: place key a bs

theorem key_mem_place {a : α} {l : List α} {k : String} (h : k ∈ (place key a l).map key) :
    k = key a ∨ k ∈ l.map key := by
  induction l with
  | nil => simpa [place] using h
  | cons b bs ih =>
    unfold place at h
    split at h
    · simpa using h
    · split at h
      · rcases List.mem_cons.1 h with h | h
        · exact .inl h
        · exact .inr (by simp [h])
      · rcases List.mem_cons.1 h with h | h
        · exact .inr (by simp [h])
        · exact (ih h).imp_right (by simp +contextual)

theorem place_ascending (a : α) {l : List α} (h : (l.map key).Pairwise (· < ·)) :
    ((place key a l).map key).Pairwise (· < ·) := by
  induction l with
  | nil => simp [place]
  | cons b bs ih =>
    obtain ⟨hb, hbs⟩ := List.pairwise_cons.1 h
    unfold place
    split
    next lt =>
      refine List.pairwise_cons.2 ⟨fun k hk => ?_, h⟩
      rcases List.mem_cons.1 hk with rfl | hk
      · exact lt
      · exact String.lt_trans lt (hb k hk)
    next ge =>
      split
      next eq => exact List.pairwise_cons.2 ⟨fun k hk => eq ▸ hb k hk, hbs⟩
      next ne =>
        refine List.pairwise_cons.2 ⟨fun k hk => ?_, ih hbs⟩
        rcases key_mem_place hk with rfl | hk
        · exact Std.lt_of_le_of_ne (String.not_lt.1 ge) (Ne.symm ne)
        · exact hb k hk

def put (s : Keyed α key) (a : α) : Keyed α key :=
  ⟨place key a s.toList, place_ascending a s.ascending⟩

/-- Of several members with one key the last one counts. -/
def ofList (l : List α) : Keyed α key := l.foldl put ∅

def putAll (s : Keyed α key) (l : List α) : Keyed α key := l.foldl put s

def filter (p : α → Bool) (s : Keyed α key) : Keyed α key :=
  ⟨s.toList.filter p, s.ascending.sublist (List.filter_sublist.map key)⟩

def erase (s : Keyed α key) (k : String) : Keyed α key := s.filter (key · != k)

def map (f : α → α) (h : ∀ a, key (f a) = key a) (s : Keyed α key) : Keyed α key :=
  ⟨s.toList.map f, by simpa [Function.comp_def, h] using s.ascending⟩

/-- Changes the member with key `k`; `f` is meant to keep the key. -/
def update (s : Keyed α key) (k : String) (f : α → α) : Keyed α key :=
  match s.find? k with
  | none => s
  | some a => s.put (f a)

@[simp] theorem toList_filter (s : Keyed α key) (p : α → Bool) :
    (s.filter p).toList = s.toList.filter p := rfl

theorem find?_place (a : α) {l : List α} (h : (l.map key).Pairwise (· < ·)) (k : String) :
    (place key a l).find? (key · == k) =
      if key a = k then some a else l.find? (key · == k) := by
  induction l with
  | nil => by_cases hk : key a = k <;> simp [place, hk]
  | cons b bs ih =>
    obtain ⟨hb, hbs⟩ := List.pairwise_cons.1 h
    unfold place
    split
    next lt => by_cases hk : key a = k <;> simp [hk]
    next ge =>
      split
      next eq => by_cases hk : key b = k <;> simp [eq, hk]
      next ne =>
        by_cases hk : key b = k
        · have : ¬ key a = k := fun h => ne (h.trans hk.symm)
          simp [hk, this]
        · simp [hk, ih hbs]

theorem find?_put (s : Keyed α key) (a : α) (k : String) :
    (s.put a).find? k = if key a = k then some a else s.find? k :=
  find?_place a s.ascending k

end Keyed

/-- A set of names, in code-point order. -/
abbrev NameSet := Keyed String id

end ApiModel
