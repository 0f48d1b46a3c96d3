import Mathlib.Data.String.Basic
import ApiModel.Proofs.Registry.Depth
import ApiModel.Proofs.StableSort

/-! The order of dependencies by a search. It visits the schemas one after the other, each after
those that it waits for, keeps the depths that it finds, and fails when it comes to a schema that it
has not done visiting. What it finds is `dependencyOrder`, by the same chain if it fails. -/

namespace ApiModel.Registry
open DependencyOrder

abbrev Depths := Keyed (String × Nat) Prod.fst

variable (r : Registry)

def deepen (visit : Depths → String → Except Failure (Nat × Depths)) (found : Nat × Depths)
    (d : String) : Except Failure (Nat × Depths) :=
  if r.contains d then (visit found.2 d).map fun below => (max found.1 (below.1 + 1), below.2)
  else .ok found

/-- The depth of the schema called `name`, and all depths known then. The names in `path` lead to it
from where the search started, and `unvisited` are the registered ones that are not among them. -/
def visit (unvisited path : List String) (depths : Depths) (name : String) :
    Except Failure (Nat × Depths) :=
  match depths.find? name with
  | some known => .ok (known.2, depths)
  | none =>
    if name ∈ path then .error (.cyclicInheritance (path.dropWhile (· != name) ++ [name]))
    else if h : name ∈ unvisited then
      have : (unvisited.erase name).length < unvisited.length := by
        rw [List.length_erase_of_mem h]
        exact Nat.sub_one_lt_of_lt (List.length_pos_of_mem h)
      let dependencies := ((r.find? name).map (·.dependencies)).getD []
      (dependencies.foldlM (r.deepen fun depths d =>
        visit (unvisited.erase name) (path ++ [name]) depths d) (0, depths)).map
          fun found => (found.1, found.2.put (name, found.1))
    else .ok (0, depths)
termination_by unvisited.length

def searchDepths : Except Failure Depths :=
  r.keys.foldlM (fun depths name => (r.visit r.keys [] depths name).map Prod.snd) ∅

def searchOrder : Except Failure (List String) :=
  r.searchDepths.map fun depths =>
    (sortBy (fun found => toLex (found.2, found.1)) depths.toList).map Prod.fst

variable {r} {depths depths' : Depths} {unvisited path unseen : List String} {name n : String}
  {order : List String} {k a : Nat} {s : Schema} {f : Failure}

/-! ### Depths -/

theorem mem_toList_of_mem_stuck (hs : s ∈ (peel r.toList).2) : s ∈ r.toList :=
  (peel_perm r.toList).mem_iff.1 (List.mem_append_right _ hs)

theorem exists_descends_of_mem_stuck (j : Nat) : ∀ s ∈ (peel r.toList).2,
    ∃ l, r.Descends s.name l ∧ l.length = j := by
  induction j with
  | zero => exact fun s _ => ⟨[], List.isChain_singleton _, rfl⟩
  | succ j ih =>
    intro s hs
    obtain ⟨_, dep, t, ht, rfl⟩ := exists_dependency_of_stuck r.toList s hs
    obtain ⟨l, descends, rfl⟩ := ih t ht
    have known : r.contains t.name = true :=
      Keyed.contains_iff.2 ⟨t, Keyed.find?_of_mem (mem_toList_of_mem_stuck ht)⟩
    have waits := waitsFor_of_mem (mem_toList_of_mem_stuck hs) dep known
    exact ⟨t.name :: l, List.isChain_cons_cons.2 ⟨waits, descends⟩, rfl⟩

theorem not_hasDepth_of_mem_stuck (h : n ∈ (peel r.toList).2.map (·.name)) : ¬ r.HasDepth n k := by
  rintro ⟨_, greatest⟩
  obtain ⟨s, hs, rfl⟩ := List.mem_map.1 h
  have longer := greatest (exists_descends_of_mem_stuck (k + 1) s hs)
  omega

theorem exists_hasDepth_of_not_mem_stuck (known : r.contains n = true)
    (h : n ∉ (peel r.toList).2.map (·.name)) : ∃ k, r.HasDepth n k := by
  obtain ⟨s, hs⟩ := Keyed.contains_iff.1 known
  obtain ⟨mem, rfl⟩ := Keyed.find?_eq_some_iff.1 hs
  rcases List.mem_append.1 ((peel_perm r.toList).mem_iff.2 mem) with taken | stuck
  · obtain ⟨k, _, depth⟩ := r.afterLayers_zero.exists_hasDepth s taken
    exact ⟨k, depth⟩
  · exact absurd (List.mem_map_of_mem stuck) h

theorem HasDepth.exists_lt {d : String} (h : r.HasDepth n k) (waits : r.WaitsFor n d) :
    ∃ i < k, r.HasDepth d i := by
  have shorter (l : List String) (descends : r.Descends d l) : l.length < k :=
    h.2 ⟨d :: l, List.isChain_cons_cons.2 ⟨waits, descends⟩, rfl⟩
  by_cases stuck : d ∈ (peel r.toList).2.map (·.name)
  · obtain ⟨s, hs, rfl⟩ := List.mem_map.1 stuck
    obtain ⟨l, descends, rfl⟩ := exists_descends_of_mem_stuck k s hs
    exact absurd (shorter l descends) (Nat.lt_irrefl _)
  · obtain ⟨i, depth⟩ := exists_hasDepth_of_not_mem_stuck waits.1 stuck
    obtain ⟨l, descends, rfl⟩ := depth.1
    exact ⟨l.length, shorter l descends, depth⟩

def StepsOver (r : Registry) (ds : List String) (j : Nat) : Prop :=
  ∃ d ∈ ds, r.contains d = true ∧ ∃ i, r.HasDepth d i ∧ j = i + 1

theorem hasDepth_of_isGreatest (hs : r.find? n = some s)
    (each : ∀ d ∈ s.dependencies, r.contains d = true → ∃ i, r.HasDepth d i)
    (h : IsGreatest {j | j = 0 ∨ r.StepsOver s.dependencies j} k) : r.HasDepth n k := by
  obtain ⟨mem, rfl⟩ := Keyed.find?_eq_some_iff.1 hs
  constructor
  · rcases h.1 with rfl | ⟨d, dep, known, i, depth, rfl⟩
    · exact ⟨[], List.isChain_singleton _, rfl⟩
    · obtain ⟨l, descends, rfl⟩ := depth.1
      have waits := waitsFor_of_mem mem dep known
      exact ⟨d :: l, List.isChain_cons_cons.2 ⟨waits, descends⟩, rfl⟩
  · rintro _ ⟨l, descends, rfl⟩
    cases l with
    | nil => exact Nat.zero_le k
    | cons d l =>
      obtain ⟨waits, rest⟩ := List.isChain_cons_cons.1 descends
      obtain ⟨u, hu, takes⟩ := waits.2
      have dep : d ∈ s.dependencies := by
        rw [hs, Option.some_inj] at hu
        exact Schema.mem_dependencies.2 (hu ▸ takes)
      obtain ⟨i, depth⟩ := each d dep waits.1
      have shorter : l.length ≤ i := depth.2 ⟨l, rest, rfl⟩
      have bound : i + 1 ≤ k := h.2 (.inr ⟨d, dep, waits.1, i, depth, rfl⟩)
      exact (Nat.succ_le_succ shorter).trans bound

/-! ### Visits that succeed -/

def Sound (r : Registry) (depths : Depths) : Prop :=
  ∀ n k, (n, k) ∈ depths.toList → r.contains n = true ∧ r.HasDepth n k

/-- `depths'` is what is known after more visits. -/
structure Extends (r : Registry) (depths depths' : Depths) : Prop where
  sound : r.Sound depths'
  contains : ∀ n, depths.contains n = true → depths'.contains n = true

structure Unvisited (r : Registry) (unvisited path : List String) : Prop where
  nodup : unvisited.Nodup
  mem_iff : ∀ n, n ∈ unvisited ↔ r.contains n = true ∧ n ∉ path

theorem Extends.trans {depths'' : Depths} (h : r.Extends depths depths')
    (h' : r.Extends depths' depths'') : r.Extends depths depths'' :=
  ⟨h'.sound, fun n hn => h'.contains n (h.contains n hn)⟩

theorem Unvisited.erase (h : r.Unvisited unvisited path) (name : String) :
    r.Unvisited (unvisited.erase name) (path ++ [name]) := by
  refine ⟨h.nodup.erase name, fun n => ?_⟩
  rw [h.nodup.mem_erase_iff, h.mem_iff, List.mem_append, List.mem_singleton, not_or]
  tauto

theorem Extends.put (sound : r.Sound depths) (known : r.contains name = true)
    (depth : r.HasDepth name k) : r.Extends depths (depths.put (name, k)) := by
  have found (n : String) : (depths.put (name, k)).find? n =
      if name = n then some (name, k) else depths.find? n := Keyed.find?_put depths (name, k) n
  constructor
  · intro n j mem
    have held := Keyed.find?_of_mem mem
    rw [found] at held
    split at held
    next eq =>
      obtain ⟨rfl, rfl⟩ := Prod.mk.inj (Option.some.inj held)
      exact ⟨known, depth⟩
    next => exact sound n j (Keyed.find?_eq_some_iff.1 held).1
  · intro n hn
    rw [Keyed.contains, found]
    split
    · rfl
    · exact hn

/-- What is known already `visit` adds to, and it finds the depth of `d`. -/
def Finds (r : Registry) (visit : Depths → String → Except Failure (Nat × Depths)) (d : String) :
    Prop :=
  ∀ depths, r.Sound depths → ∃ k depths',
    visit depths d = .ok (k, depths') ∧ r.HasDepth d k ∧ r.Extends depths depths'

theorem exists_foldlM_deepen {visit : Depths → String → Except Failure (Nat × Depths)}
    {ds : List String} (each : ∀ d ∈ ds, r.contains d = true → r.Finds visit d)
    (sound : r.Sound depths) (a : Nat) : ∃ k depths',
      ds.foldlM (r.deepen visit) (a, depths) = .ok (k, depths') ∧
        IsGreatest {j | j = a ∨ r.StepsOver ds j} k ∧ r.Extends depths depths' := by
  induction ds generalizing a depths with
  | nil =>
    refine ⟨a, depths, rfl, ⟨.inl rfl, ?_⟩, sound, fun _ => id⟩
    rintro j (rfl | ⟨d, hd, _⟩)
    · exact le_rfl
    · exact absurd hd List.not_mem_nil
  | cons d ds ih =>
    have later : ∀ d' ∈ ds, r.contains d' = true → r.Finds visit d' :=
      fun d' hd' => each d' (List.mem_cons_of_mem d hd')
    rw [List.foldlM_cons, deepen]
    split
    next known =>
      obtain ⟨i, depths₁, run, depth, extends₁⟩ := each d List.mem_cons_self known depths sound
      obtain ⟨k, depths₂, rest, greatest, extends₂⟩ := ih later extends₁.sound (max a (i + 1))
      refine ⟨k, depths₂, ?_, ⟨?_, ?_⟩, extends₁.trans extends₂⟩
      · rw [run]
        exact rest
      · rcases greatest.1 with rfl | ⟨d', hd', steps⟩
        · rcases max_choice a (i + 1) with first | second
          · exact .inl first
          · exact .inr ⟨d, List.mem_cons_self, known, i, depth, second⟩
        · exact .inr ⟨d', List.mem_cons_of_mem d hd', steps⟩
      · have bound : max a (i + 1) ≤ k := greatest.2 (.inl rfl)
        rintro j (rfl | ⟨d', hd', known', i', depth', rfl⟩)
        · exact (le_max_left _ _).trans bound
        · rcases List.mem_cons.1 hd' with rfl | hd'
          · obtain rfl := depth.unique depth'
            exact (le_max_right _ _).trans bound
          · exact greatest.2 (.inr ⟨d', hd', known', i', depth', rfl⟩)
    next unknown =>
      obtain ⟨k, depths₂, rest, greatest, extends₂⟩ := ih later sound a
      have steps (j : Nat) : r.StepsOver (d :: ds) j ↔ r.StepsOver ds j := by
        simp [StepsOver, unknown]
      refine ⟨k, depths₂, rest, ?_, extends₂⟩
      simpa only [steps] using greatest

theorem visit_again (fresh : depths.find? name = none) (again : name ∈ path) :
    r.visit unvisited path depths name =
      .error (.cyclicInheritance (path.dropWhile (· != name) ++ [name])) := by
  rw [visit, fresh]
  exact if_pos again

theorem visit_new (fresh : depths.find? name = none) (new : name ∉ path) (free : name ∈ unvisited)
    (hs : r.find? name = some s) : r.visit unvisited path depths name =
      (s.dependencies.foldlM (r.deepen (r.visit (unvisited.erase name) (path ++ [name])))
        (0, depths)).map fun found => (found.1, found.2.put (name, found.1)) := by
  rw [visit, fresh]
  show (if _ then _ else _) = _
  rw [if_neg new, dif_pos free, hs]
  rfl

theorem visit_of_hasDepth (known : r.contains name = true) (depth : r.HasDepth name k)
    (sound : r.Sound depths) (free : r.Unvisited unvisited path)
    (above : ∀ p ∈ path, ∀ j, r.HasDepth p j → k < j) :
    ∃ depths', r.visit unvisited path depths name = .ok (k, depths') ∧
      r.Extends depths depths' ∧ depths'.contains name = true := by
  induction k using Nat.strongRecOn generalizing unvisited path depths name with
  | ind k ih =>
    cases fresh : depths.find? name with
    | some found =>
      obtain ⟨mem, rfl⟩ := Keyed.find?_eq_some_iff.1 fresh
      have same : found.2 = k := (sound found.1 found.2 mem).2.unique depth
      refine ⟨depths, ?_, ⟨sound, fun _ => id⟩, Keyed.contains_iff.2 ⟨found, fresh⟩⟩
      rw [visit, fresh]
      exact congrArg (fun j => Except.ok (j, depths)) same
    | none =>
      have new : name ∉ path := fun mem => Nat.lt_irrefl k (above name mem k depth)
      obtain ⟨s, hs⟩ := Keyed.contains_iff.1 known
      obtain ⟨mem, rfl⟩ := Keyed.find?_eq_some_iff.1 hs
      have lower (d : String) (dep : d ∈ s.dependencies) (hd : r.contains d = true) :
          ∃ i < k, r.HasDepth d i := depth.exists_lt (waitsFor_of_mem mem dep hd)
      have each (d : String) (dep : d ∈ s.dependencies) (hd : r.contains d = true) :
          r.Finds (r.visit (unvisited.erase s.name) (path ++ [s.name])) d := by
        intro depths sound
        obtain ⟨i, lt, depth_d⟩ := lower d dep hd
        have above' : ∀ p ∈ path ++ [s.name], ∀ j, r.HasDepth p j → i < j := by
          intro p hp j depth_p
          rcases List.mem_append.1 hp with hp | hp
          · exact lt.trans (above p hp j depth_p)
          · obtain rfl := List.mem_singleton.1 hp
            exact depth.unique depth_p ▸ lt
        obtain ⟨depths', run, more, _⟩ := ih i lt hd depth_d sound (free.erase s.name) above'
        exact ⟨i, depths', run, depth_d, more⟩
      obtain ⟨j, depths', run, greatest, below⟩ := exists_foldlM_deepen each sound 0
      have found : r.HasDepth s.name j := hasDepth_of_isGreatest hs
        (fun d dep hd => (lower d dep hd).imp fun _ => And.right) greatest
      obtain rfl := found.unique depth
      have more := Extends.put below.sound known depth
      refine ⟨depths'.put (s.name, j), ?_, below.trans more, ?_⟩
      · rw [visit_new fresh new ((free.mem_iff _).2 ⟨known, new⟩) hs, run]
        rfl
      · rw [Keyed.contains, Keyed.find?_put, if_pos rfl]
        rfl

/-! ### Visits that come back to their path -/

theorem foldlM_of_error {α β : Type} {step : β → α → Except Failure β} {before after : List α}
    {a : α} {b c : β} (run : before.foldlM step b = .ok c) (failed : step c a = .error f) :
    (before ++ a :: after).foldlM step b = .error f := by
  rw [List.foldlM_append, run]
  show (a :: after).foldlM step c = Except.error f
  rw [List.foldlM_cons, failed]
  rfl

theorem Sound.find?_of_mem_stuck (sound : r.Sound depths)
    (stuck : name ∈ (peel r.toList).2.map (·.name)) : depths.find? name = none := by
  rw [Option.eq_none_iff_forall_ne_some]
  intro found h
  obtain ⟨mem, rfl⟩ := Keyed.find?_eq_some_iff.1 h
  exact not_hasDepth_of_mem_stuck stuck (sound found.1 found.2 mem).2

theorem exists_visit_next (sound : r.Sound depths) (free : r.Unvisited unvisited path)
    (stuck : ∀ p ∈ path ++ [name], p ∈ (peel r.toList).2.map (·.name)) (new : name ∉ path)
    (hn : next? (peel r.toList).2 name = some n) : ∃ depths', r.Sound depths' ∧
      ∀ f, r.visit (unvisited.erase name) (path ++ [name]) depths' n = .error f →
        r.visit unvisited path depths name = .error f := by
  have fresh := sound.find?_of_mem_stuck (stuck name (by simp))
  obtain ⟨s, hs, dep⟩ := Option.bind_eq_some_iff.1 hn
  obtain rfl : s.name = name := by simpa using List.find?_some hs
  have mem : s ∈ r.toList := mem_toList_of_mem_stuck (List.mem_of_find?_eq_some hs)
  have held : r.find? s.name = some s := Keyed.find?_of_mem mem
  obtain ⟨_, before, after, split, clear⟩ := List.find?_eq_some_iff_append.1 dep
  obtain ⟨stuck_n, _⟩ := of_next?_eq_some hn
  have each : ∀ d ∈ before, r.contains d = true →
      r.Finds (r.visit (unvisited.erase s.name) (path ++ [s.name])) d := by
    intro d hd known depths sound
    have passed : d ∉ (peel r.toList).2.map (·.name) := by simpa using clear d hd
    obtain ⟨i, depth⟩ := exists_hasDepth_of_not_mem_stuck known passed
    obtain ⟨depths', run, more, _⟩ := visit_of_hasDepth known depth sound (free.erase s.name)
      fun p hp j deep => (not_hasDepth_of_mem_stuck (stuck p hp) deep).elim
    exact ⟨i, depths', run, depth, more⟩
  obtain ⟨k, depths', run, _, more⟩ := exists_foldlM_deepen each sound 0
  refine ⟨depths', more.sound, fun f failed => ?_⟩
  have known : r.contains n = true := by
    obtain ⟨t, ht, rfl⟩ := List.mem_map.1 stuck_n
    exact Keyed.contains_iff.2 ⟨t, Keyed.find?_of_mem (mem_toList_of_mem_stuck ht)⟩
  have step : r.deepen (r.visit (unvisited.erase s.name) (path ++ [s.name])) (k, depths') n =
      .error f := by
    rw [deepen, if_pos known, failed]
    rfl
  have free_s : s.name ∈ unvisited :=
    (free.mem_iff _).2 ⟨Keyed.contains_iff.2 ⟨s, held⟩, new⟩
  rw [visit_new fresh new free_s held, split, foldlM_of_error run step]
  rfl

theorem not_mem_of_nodup_concat {l : List String} (distinct : (path ++ [name] ++ l).Nodup) :
    name ∉ path := by
  intro again
  have passed := (List.nodup_append.1 distinct).1
  exact (List.nodup_append.1 passed).2.2 name again name (List.mem_singleton_self name) rfl

theorem visit_of_mem_stuck (distinct : (path ++ [name] ++ unseen).Nodup)
    (stuck : ∀ p, p ∈ path ++ [name] ++ unseen ↔ p ∈ (peel r.toList).2.map (·.name)) :
    ∀ {unvisited depths}, r.Sound depths → r.Unvisited unvisited path →
      r.visit unvisited path depths name =
        .error (.cyclicInheritance (cycle (next? (peel r.toList).2) unseen path name)) := by
  induction unseen, path, name using cycle.induct (next? (peel r.toList).2) with
  | case1 unseen path name stop =>
    obtain ⟨_, _, step⟩ :=
      exists_next? (exists_dependency_of_stuck r.toList) name ((stuck name).1 (by simp))
    rw [stop] at step
    cases step
  | case2 unseen path name passed n hn fresh _ ih =>
    intro unvisited depths sound free
    have same : (passed ++ [n] ++ unseen.erase n).Perm (passed ++ unseen) := by
      rw [List.append_assoc]
      exact (List.perm_cons_erase fresh).symm.append_left passed
    obtain ⟨depths', sound', leads⟩ := exists_visit_next sound free
      (fun p hp => (stuck p).1 (List.mem_append_left _ hp)) (not_mem_of_nodup_concat distinct) hn
    rw [cycle_of_mem hn fresh]
    exact leads _ (ih (same.symm.nodup distinct) (fun p => same.mem_iff.trans (stuck p)) sound'
      (free.erase name))
  | case3 unseen path name n hn old =>
    intro unvisited depths sound free
    obtain ⟨depths', sound', leads⟩ := exists_visit_next sound free
      (fun p hp => (stuck p).1 (List.mem_append_left _ hp)) (not_mem_of_nodup_concat distinct) hn
    have stuck_n := (of_next?_eq_some hn).1
    have again : n ∈ path ++ [name] := (List.mem_append.1 ((stuck n).2 stuck_n)).resolve_right old
    rw [cycle_of_not_mem hn old]
    exact leads _ (visit_again (sound'.find?_of_mem_stuck stuck_n) again)

/-! ### The whole search -/

theorem unvisited_keys (r : Registry) : r.Unvisited r.keys [] :=
  ⟨r.nodup_keys, fun n => by simp [Keyed.contains_iff_mem_keys, Keyed.keys]⟩

theorem exists_foldlM_visit {names : List String}
    (h : ∀ n ∈ names, r.contains n = true ∧ ∃ k, r.HasDepth n k) (sound : r.Sound depths) :
    ∃ depths', names.foldlM (fun depths name => (r.visit r.keys [] depths name).map Prod.snd)
      depths = .ok depths' ∧ r.Extends depths depths' ∧
        ∀ n ∈ names, depths'.contains n = true := by
  induction names generalizing depths with
  | nil => exact ⟨depths, rfl, ⟨sound, fun _ => id⟩, fun n hn => absurd hn List.not_mem_nil⟩
  | cons name names ih =>
    obtain ⟨known, k, depth⟩ := h name List.mem_cons_self
    obtain ⟨depths₁, run, more₁, found⟩ := visit_of_hasDepth known depth sound (unvisited_keys r)
      fun p hp => absurd hp List.not_mem_nil
    obtain ⟨depths₂, rest, more₂, founds⟩ :=
      ih (fun n hn => h n (List.mem_cons_of_mem name hn)) more₁.sound
    refine ⟨depths₂, ?_, more₁.trans more₂, fun n hn => ?_⟩
    · rw [List.foldlM_cons, run]
      exact rest
    · rcases List.mem_cons.1 hn with rfl | hn
      · exact more₂.contains n found
      · exact founds n hn

theorem sound_empty (r : Registry) : r.Sound ∅ := fun _ _ h => absurd h List.not_mem_nil

theorem eq_of_searchDepths (sound : r.Sound depths)
    (all : ∀ n, r.contains n = true → depths.contains n = true)
    (h : r.dependencyOrder = .ok order) :
    (sortBy (fun found => toLex (found.2, found.1)) depths.toList).map Prod.fst = order := by
  have byDepth := byDepth_of_dependencyOrder h
  set sorted := sortBy (fun found => toLex (found.2, found.1)) depths.toList with sorted_eq
  have perm : sorted.Perm depths.toList := sortBy_perm _ _
  have distinct : (sorted.map Prod.fst).Nodup := (perm.map Prod.fst).symm.nodup depths.nodup_keys
  have names : (sorted.map Prod.fst).Perm order := by
    rw [List.perm_ext_iff_of_nodup distinct byDepth.nodup]
    intro n
    rw [(perm.map Prod.fst).mem_iff, byDepth.mem_iff, ← Keyed.contains_iff_mem_keys]
    refine ⟨fun found => ?_, all n⟩
    obtain ⟨⟨n, k⟩, held⟩ := Keyed.contains_iff.1 found
    obtain ⟨mem, rfl⟩ := Keyed.find?_eq_some_iff.1 held
    exact (sound n k mem).1
  have shallower : (sorted.map Prod.fst).Pairwise r.Shallower := by
    rw [List.pairwise_map]
    have apart : sorted.Pairwise fun a b => a.1 ≠ b.1 := List.pairwise_map.1 distinct
    have ascending := (stablySorted_sortBy
      (fun found : String × Nat => toLex (found.2, found.1)) depths.toList).ascending
    refine (ascending.and apart).imp_of_mem fun {a b} ha hb ⟨le, ne⟩ => ?_
    have depth_a := (sound a.1 a.2 (perm.mem_iff.1 ha)).2
    have depth_b := (sound b.1 b.2 (perm.mem_iff.1 hb)).2
    refine ⟨a.2, b.2, depth_a, depth_b, ?_⟩
    exact (Prod.Lex.toLex_le_toLex.1 le).imp_right (And.imp_right fun le => le.lt_of_ne ne)
  refine names.eq_of_pairwise ?_ shallower byDepth.pairwise
  intro n m _ _ nm mn
  exact (nm.asymm mn).elim

theorem peel_sublist (pending : List Schema) : (peel pending).2.Sublist pending := by
  induction pending using peel.induct with
  | case1 pending stuck =>
    rw [peel_of_stuck stuck]
  | case2 pending taken _ _ _ _ ih =>
    rw [peel_of_layer taken]
    exact ih.trans List.filter_sublist

theorem searchDepths_of_stuck {first : Schema} {stuck : List Schema}
    (peeled : (peel r.toList).2 = first :: stuck) : r.searchDepths = .error (.cyclicInheritance
      (cycle (next? (first :: stuck)) (stuck.map (·.name)) [] first.name)) := by
  have sub : (first :: stuck).Sublist r.toList := peeled ▸ peel_sublist r.toList
  have distinct : ((first :: stuck).map (·.name)).Nodup := r.nodup_keys.sublist (sub.map _)
  obtain ⟨before, after, split⟩ := List.append_of_mem (sub.subset List.mem_cons_self)
  have ascending := r.ascending
  rw [split, List.map_append, List.pairwise_append] at ascending
  -- The names come in their order, so the first that cannot be visited is the first stuck one.
  have deep : ∀ n ∈ before.map (·.name), r.contains n = true ∧ ∃ k, r.HasDepth n k := by
    intro n hn
    obtain ⟨s, hs, rfl⟩ := List.mem_map.1 hn
    have known : r.contains s.name = true :=
      Keyed.contains_iff.2 ⟨s, Keyed.find?_of_mem (split ▸ List.mem_append_left _ hs)⟩
    refine ⟨known, exists_hasDepth_of_not_mem_stuck known ?_⟩
    rw [peeled]
    intro mem
    have lt : s.name < first.name := ascending.2.2 s.name hn first.name (by simp)
    have sorted : ((first :: stuck).map (·.name)).Pairwise (· < ·) :=
      r.ascending.sublist (sub.map _)
    rcases List.mem_cons.1 mem with eq | mem
    · exact String.lt_irrefl _ (eq ▸ lt)
    · exact String.lt_asymm lt (List.rel_of_pairwise_cons sorted mem)
  obtain ⟨depths, run, more, _⟩ := exists_foldlM_visit deep (sound_empty r)
  have fails : r.visit r.keys [] depths first.name = .error (.cyclicInheritance
      (cycle (next? (first :: stuck)) (stuck.map (·.name)) [] first.name)) := by
    rw [← peeled]
    exact visit_of_mem_stuck distinct (by simp [peeled]) more.sound (unvisited_keys r)
  have keys : r.keys = before.map (·.name) ++ first.name :: after.map (·.name) := by
    rw [Keyed.keys, split, List.map_append, List.map_cons]
  have step := congrArg (Except.map Prod.snd) fails
  exact (congrArg (List.foldlM _ ∅) keys).trans (foldlM_of_error run step)

/-- The search and the layers find the same order, or the same chain. -/
theorem searchOrder_eq (r : Registry) : r.searchOrder = r.dependencyOrder := by
  cases peeled : (peel r.toList).2 with
  | nil =>
    have deep : ∀ n ∈ r.keys, r.contains n = true ∧ ∃ k, r.HasDepth n k := by
      intro n hn
      have known : r.contains n = true := Keyed.contains_iff_mem_keys.2 hn
      exact ⟨known, exists_hasDepth_of_not_mem_stuck known (by simp [peeled])⟩
    obtain ⟨depths, run, more, all⟩ := exists_foldlM_visit deep (sound_empty r)
    have order : r.dependencyOrder = .ok ((peel r.toList).1.map (·.name)) := by
      rw [dependencyOrder]
      split <;> simp_all only [reduceCtorEq]
    rw [searchOrder, searchDepths, run, order]
    exact congrArg Except.ok (eq_of_searchDepths more.sound
      (fun n known => all n (Keyed.contains_iff_mem_keys.1 known)) order)
  | cons first stuck =>
    have failed : r.dependencyOrder = .error (.cyclicInheritance
        (cycle (next? (first :: stuck)) (stuck.map (·.name)) [] first.name)) := by
      rw [dependencyOrder]
      split <;> simp_all
    rw [searchOrder, searchDepths_of_stuck peeled, failed]
    rfl

/-! ### What is reported -/

section Reported

variable {R : String → String → Prop} {chain : List String}

theorem two_le_length_of_simpleCycle (h : SimpleCycle R chain) : 2 ≤ chain.length := by
  obtain ⟨n, l, rfl, _⟩ := h.closed
  simp

theorem head?_of_simpleCycle (h : SimpleCycle R chain) : chain.head? = chain.getLast? := by
  obtain ⟨n, l, rfl, _⟩ := h.closed
  rw [List.getLast?_concat]
  rfl

theorem nodup_of_simpleCycle (h : SimpleCycle R chain) : chain.dropLast.Nodup := by
  obtain ⟨n, l, rfl, distinct⟩ := h.closed
  rwa [List.dropLast_concat]

theorem of_mem_of_isChain {P : String → Prop} (RP : ∀ a b, R a b → P b) :
    ∀ {a l}, (a :: l).IsChain R → ∀ b ∈ l, P b
  | _, [], _, _, hb => absurd hb List.not_mem_nil
  | a, b :: l, h, c, hc => by
    obtain ⟨step, rest⟩ := List.isChain_cons_cons.1 h
    rcases List.mem_cons.1 hc with rfl | hc
    · exact RP a c step
    · exact of_mem_of_isChain RP rest c hc

theorem contains_of_simpleCycle (h : SimpleCycle r.WaitsFor chain) :
    ∀ n ∈ chain, r.contains n = true := by
  obtain ⟨first, l, rfl, _⟩ := h.closed
  have waited := of_mem_of_isChain (fun _ _ waits => waits.1) h.isChain
  intro n hn
  rcases List.mem_cons.1 hn with rfl | hn
  · exact waited n (by simp)
  · exact waited n hn

end Reported

/-- A failure is one simple cycle, and none of the names by which the search came to it. -/
theorem cyclicInheritance_of_dependencyOrder (h : r.dependencyOrder = .error f) :
    r.searchOrder = .error f ∧ ∃ chain, f = .cyclicInheritance chain ∧
      2 ≤ chain.length ∧ chain.head? = chain.getLast? ∧ chain.dropLast.Nodup ∧
      (∀ n ∈ chain, r.contains n = true) ∧
      chain.IsChain fun n m => ∃ s, r.find? n = some s ∧ s.TakesFrom m := by
  obtain ⟨chain, rfl, cycle⟩ := simpleCycle_of_dependencyOrder h
  refine ⟨(searchOrder_eq r).trans h, chain, rfl, two_le_length_of_simpleCycle cycle,
    head?_of_simpleCycle cycle, nodup_of_simpleCycle cycle, contains_of_simpleCycle cycle, ?_⟩
  exact cycle.isChain.imp fun _ _ waits => waits.2

def geared : Registry :=
  .ofList [
    Schema.named "Base",
    ((Schema.named "Gate").withParent "Base").composedOf .allOf ["Gate", "Missing", "Large wheel"],
    ((Schema.named "Large wheel").withParent "Small wheel").composedOf .oneOf ["Gate"],
    (Schema.named "Small wheel").composedOf .allOf ["Small wheel", "Base", "Large wheel"]]

theorem cyclicInheritance_of_dependencyOrder_geared :
    let chain := ["Large wheel", "Small wheel", "Large wheel"]
    geared.dependencyOrder = .error (.cyclicInheritance chain) ∧
      geared.searchOrder = .error (.cyclicInheritance chain) ∧
      chain.IsChain fun n m => ∃ s, geared.find? n = some s ∧ s.TakesFrom m := by
  intro chain
  have failed : geared.dependencyOrder = .error (.cyclicInheritance chain) := by decide +kernel
  obtain ⟨searched, chain', same, _, _, _, _, walk⟩ := cyclicInheritance_of_dependencyOrder failed
  obtain rfl : chain = chain' := Failure.cyclicInheritance.inj same
  exact ⟨failed, searched, walk⟩

end ApiModel.Registry
