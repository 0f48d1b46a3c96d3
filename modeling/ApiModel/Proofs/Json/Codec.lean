import ApiModel.Json.Record
import ApiModel.Proofs.Keyed

/-! Values that survive being written and read. A record does so if its fields, read one after the
other from what is written for them, lead from the record that reading starts with to the one that
was written; a field that is not written has to find its default there. -/

namespace ApiModel.Json

open Draft (ofJson ofItems ofMembers)

theorem ok_bind {ε α β : Type} (a : α) (f : α → Except ε β) : (Except.ok a >>= f) = f a := rfl

def Codec.RoundTrips {α : Type} (codec : Codec α) : Prop :=
  ∀ a, codec.read (ofJson (codec.write a)) = .ok a

/-- `null` stands for the absence of a value, so it must not be written for one. -/
def Codec.NeverNull {α : Type} (codec : Codec α) : Prop := ∀ a, codec.write a ≠ .null

theorem Draft.ofItems_eq (items : List Json) : ofItems items = items.map ofJson := by
  induction items with
  | nil => rfl
  | cons item items ih => rw [ofItems, ih, List.map_cons]

theorem Draft.skip_ofJson (j : Json) : (ofJson j).skip = .ok () := by
  cases j <;> rfl

namespace Codec

variable {α : Type} {codec : Codec α}

@[simp] theorem roundTrips_string : string.RoundTrips := fun _ => rfl

@[simp] theorem roundTrips_bool : bool.RoundTrips := fun _ => rfl

@[simp] theorem neverNull_string : string.NeverNull := fun _ => nofun

@[simp] theorem neverNull_bool : bool.NeverNull := fun _ => nofun

theorem read_option_ofJson {j : Json} (h : j ≠ .null) :
    codec.option.read (ofJson j) = (codec.read (ofJson j)).map some := by
  cases j with
  | null => exact (h rfl).elim
  | bool | string | array | object => rfl

@[simp] theorem RoundTrips.option (h : codec.RoundTrips) (given : codec.NeverNull) :
    codec.option.RoundTrips := by
  intro value
  cases value with
  | none => rfl
  | some a =>
    have read : codec.option.read (ofJson (codec.write a)) = _ := read_option_ofJson (given a)
    rw [h a] at read
    exact read

theorem RoundTrips.readItems (h : codec.RoundTrips) (values : List α) :
    codec.readItems (values.map fun a => ofJson (codec.write a)) = .ok values := by
  induction values with
  | nil => rfl
  | cons a values ih =>
    rw [List.map_cons, Codec.readItems, h a, ih]
    rfl

@[simp] theorem RoundTrips.list (h : codec.RoundTrips) : codec.list.RoundTrips := by
  intro values
  have items : ofItems (values.map codec.write) = values.map fun a => ofJson (codec.write a) := by
    rw [Draft.ofItems_eq, List.map_map]
    rfl
  show (do let values ← codec.readItems (ofItems (values.map codec.write)); _) = _
  rw [items, h.readItems]
  rfl

@[simp] theorem roundTrips_nameSet : nameSet.RoundTrips := by
  intro names
  have read := roundTrips_string.list names.toList
  show (string.list.read (ofJson (string.list.write names.toList))).map Keyed.ofList = _
  rw [read]
  exact congrArg Except.ok (Keyed.ofList_toList names)

theorem readPairs_ofMembers (pairs : List (String × String)) :
    readPairs (ofMembers (pairs.map fun (key, value) => (key, .string value))) = .ok pairs := by
  induction pairs with
  | nil => rfl
  | cons pair pairs ih =>
    rw [List.map_cons, ofMembers, readPairs, ih]
    rfl

@[simp] theorem roundTrips_stringMap : stringMap.RoundTrips := by
  intro pairs
  have read := readPairs_ofMembers pairs.toList
  show (do let pairs ← readPairs (ofMembers _); _) = _
  rw [read]
  exact congrArg Except.ok (Keyed.ofList_toList pairs)

theorem roundTrips_choice {all : List α} {text : α → String}
    (h : ∀ a, all.find? (text · == text a) = some a) : (choice all text).RoundTrips := by
  intro a
  show choice.named all text (text a) = _
  rw [choice.named, h a]

end Codec

namespace RecordField

variable {ρ α : Type} {codec : Codec α} {name : String}

def carry (r cur : ρ) (f : RecordField ρ) : Except Fault ρ :=
  match f.write r with
  | none => .ok cur
  | some j => f.read cur (ofJson j)

@[simp] theorem carry_required (r cur : ρ) (f : RecordField ρ) :
    carry r cur f.required = carry r cur f := rfl

@[simp] theorem carry_plain (h : codec.RoundTrips) (get : ρ → α) (set : ρ → α → ρ) (r cur : ρ) :
    carry r cur (plain name codec get set) = .ok (set cur (get r)) := by
  show (codec.read (ofJson (codec.write (get r)))).map (set cur) = _
  rw [h]
  rfl

@[simp] theorem carry_optional (h : codec.RoundTrips) (given : codec.NeverNull)
    {get : ρ → Option α} {set : ρ → Option α → ρ} (r : ρ) {cur : ρ} (unset : set cur none = cur) :
    carry r cur (optional name codec get set) = .ok (set cur (get r)) := by
  cases hr : get r with
  | none =>
    have write : (optional name codec get set).write r = none := congrArg (Option.map _) hr
    rw [carry, write, unset]
  | some a =>
    have write : (optional name codec get set).write r = some (codec.write a) :=
      congrArg (Option.map _) hr
    have read : codec.option.read (ofJson (codec.write a)) = .ok (some a) := h.option given (some a)
    rw [carry, write]
    show (codec.option.read (ofJson (codec.write a))).map (set cur) = _
    rw [read]
    rfl

@[simp] theorem carry_unlessEmpty (h : codec.RoundTrips) {get : ρ → List α} {set : ρ → List α → ρ}
    (r : ρ) {cur : ρ} (unset : set cur [] = cur) :
    carry r cur (unlessEmpty name codec get set) = .ok (set cur (get r)) := by
  cases hr : get r with
  | nil =>
    have write : (unlessEmpty name codec get set).write r = none := by
      simp only [unlessEmpty, hr, List.isEmpty_nil, if_true]
    rw [carry, write, unset]
  | cons a as =>
    have write : (unlessEmpty name codec get set).write r = some (codec.list.write (a :: as)) := by
      simp [unlessEmpty, hr]
    rw [carry, write]
    show (codec.list.read (ofJson (codec.list.write (a :: as)))).map (set cur) = _
    rw [h.list (a :: as)]
    rfl

@[simp] theorem isRequired_plain (get : ρ → α) (set : ρ → α → ρ) :
    (plain name codec get set).isRequired = false := rfl

@[simp] theorem isRequired_optional (get : ρ → Option α) (set : ρ → Option α → ρ) :
    (optional name codec get set).isRequired = false := rfl

@[simp] theorem isRequired_unlessEmpty (get : ρ → List α) (set : ρ → List α → ρ) :
    (unlessEmpty name codec get set).isRequired = false := rfl

@[simp] theorem isSome_write_required_plain (get : ρ → α) (set : ρ → α → ρ) (r : ρ) :
    ((plain name codec get set).required.write r).isSome = true := rfl

end RecordField

namespace Record

open RecordField (carry)

variable {ρ : Type} {fields : List (RecordField ρ)} {f : RecordField ρ} {seen : List String} {r : ρ}
  {name : String} {value : Draft} {members : List (Key × Draft)}

theorem readMembers_field (found : fields.find? (·.name == name) = some f) (new : name ∉ seen) :
    readMembers fields seen r ((.string (some name), value) :: members) =
      (f.read r value).bind fun next => readMembers fields (name :: seen) next members := by
  have fresh : seen.contains name = false := by simpa using new
  simp only [readMembers, Key.read, bind, Except.bind, found, fresh, Bool.false_eq_true, if_false]

theorem readMembers_other (unknown : fields.find? (·.name == name) = none)
    (passed : value.skip = .ok ()) :
    readMembers fields seen r ((.string (some name), value) :: members) =
      readMembers fields seen r members := by
  simp only [readMembers, Key.read, bind, Except.bind, unknown, passed]

def written (fields : List (RecordField ρ)) (r : ρ) : List (String × Json) :=
  fields.filterMap fun f => (f.write r).map (f.name, ·)

theorem readMembers_others {others : List (String × Json)}
    (unknown : ∀ m ∈ others, fields.find? (·.name == m.1) = none) :
    readMembers fields seen r (ofMembers others) = .ok (r, seen) := by
  induction others with
  | nil => rfl
  | cons m others ih =>
    obtain ⟨first, rest⟩ := List.forall_mem_cons.1 unknown
    rw [ofMembers, readMembers_other first (Draft.skip_ofJson m.2), ih rest]

/-- Reading what is written for some of the fields carries these over, one by one. -/
theorem readMembers_written (distinct : (fields.map (·.name)).Nodup) (r : ρ)
    {others : List (String × Json)} (unknown : ∀ m ∈ others, fields.find? (·.name == m.1) = none)
    {fs : List (RecordField ρ)} (sub : fs.Sublist fields) {seen : List String}
    (fresh : ∀ f ∈ fs, f.name ∉ seen) (cur : ρ) :
    readMembers fields seen cur (ofMembers (written fs r ++ others)) =
      (fs.foldlM (carry r) cur).map (·, ((written fs r).map Prod.fst).reverse ++ seen) := by
  induction fs generalizing seen cur with
  | nil => exact readMembers_others unknown
  | cons f fs ih =>
    have rest := (List.sublist_cons_self f fs).trans sub
    obtain ⟨other, _⟩ := List.nodup_cons.1 (distinct.sublist (sub.map _))
    cases hw : f.write r with
    | none =>
      have none : written (f :: fs) r = written fs r := by
        simp only [written, List.filterMap_cons, hw, Option.map_none]
      have stay : carry r cur f = .ok cur := by simp only [carry, hw]
      rw [none, List.foldlM_cons, stay]
      exact ih rest (fun g hg => fresh g (List.mem_cons_of_mem f hg)) cur
    | some j =>
      have first : written (f :: fs) r = (f.name, j) :: written fs r := by
        simp only [written, List.filterMap_cons, hw, Option.map_some]
      have step : carry r cur f = f.read cur (ofJson j) := by simp only [carry, hw]
      have found : fields.find? (·.name == f.name) = some f :=
        (find?_key_eq_some_iff distinct).2 ⟨sub.subset List.mem_cons_self, rfl⟩
      have later : ∀ g ∈ fs, g.name ∉ f.name :: seen := by
        intro g hg again
        rcases List.mem_cons.1 again with same | before
        · exact other (same ▸ List.mem_map_of_mem hg)
        · exact fresh g (List.mem_cons_of_mem f hg) before
      rw [first, List.foldlM_cons, step, List.cons_append, ofMembers,
        readMembers_field found (fresh f List.mem_cons_self)]
      cases f.read cur (ofJson j) with
      | error fault => rfl
      | ok next =>
        have more := ih rest later next
        show readMembers fields (f.name :: seen) next (ofMembers (written fs r ++ others)) =
          (fs.foldlM (carry r) next).map _
        rw [more, List.map_cons, List.reverse_cons, List.append_assoc, List.singleton_append]

def Complete (fields : List (RecordField ρ)) : Prop :=
  ∀ f ∈ fields, f.isRequired = true → ∀ r, (f.write r).isSome = true

theorem read_object (fields : List (RecordField ρ)) (start : ρ) (members : List (Key × Draft)) :
    (codec fields start).read (.object members none) =
      (readMembers fields [] start members).bind fun last =>
        if fields.any fun f => f.isRequired && !last.2.contains f.name then .error .mismatched
        else .ok last.1 := by
  cases h : readMembers fields [] start members with
  | error fault => simp only [codec, h, bind, Except.bind]
  | ok last =>
    simp only [codec, h, bind, Except.bind, endOf]
    split <;> rfl

theorem read_written_append (distinct : (fields.map (·.name)).Nodup) (complete : Complete fields)
    (start r : ρ) {others : List (String × Json)}
    (unknown : ∀ m ∈ others, fields.find? (·.name == m.1) = none) :
    (codec fields start).read (ofJson (.object (written fields r ++ others))) =
      fields.foldlM (carry r) start := by
  have members := readMembers_written distinct r unknown (.refl fields)
    (fun _ _ => List.not_mem_nil) start
  rw [ofJson, read_object, members]
  cases fields.foldlM (carry r) start with
  | error fault => rfl
  | ok last =>
    have missing : (fields.any fun f => f.isRequired &&
        !(((written fields r).map Prod.fst).reverse ++ []).contains f.name) = false := by
      rw [List.any_eq_false]
      intro f hf lacks
      obtain ⟨required, absent⟩ := Bool.and_eq_true_iff.1 lacks
      obtain ⟨j, hj⟩ := Option.isSome_iff_exists.1 (complete f hf required r)
      have mem : f.name ∈ (written fields r).map Prod.fst :=
        List.mem_map.2 ⟨(f.name, j), List.mem_filterMap.2 ⟨f, hf, congrArg _ hj⟩, rfl⟩
      simp [mem] at absent
    show (if (fields.any _) = true then _ else _) = _
    rw [missing]
    rfl

theorem roundTrips {start : ρ} (distinct : (fields.map (·.name)).Nodup) (complete : Complete fields)
    (restored : ∀ r, fields.foldlM (carry r) start = .ok r) : (codec fields start).RoundTrips := by
  intro r
  have write : (codec fields start).write r = .object (written fields r ++ []) :=
    congrArg Json.object (List.append_nil _).symm
  rw [write, read_written_append distinct complete start r (List.forall_mem_nil _), restored]

theorem neverNull (fields : List (RecordField ρ)) (start : ρ) : (codec fields start).NeverNull :=
  fun _ => nofun

end Record

end ApiModel.Json
