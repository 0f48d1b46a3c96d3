import Mathlib.Data.List.Chain
import Mathlib.Data.List.TakeWhile
import ApiModel.Proofs.Registry.DependenciesFirst

/-! Where no layer can be taken any more, each schema that is left waits for another one that is
left. Following the first such dependency never leaves them, so a name comes again, and what was
passed since it came first is a cycle. -/

namespace ApiModel

/-- A chain that ends where it starts and passes no other name twice. -/
structure SimpleCycle (R : String → String → Prop) (chain : List String) : Prop where
  closed : ∃ n l, chain = n :: l ++ [n] ∧ (n :: l).Nodup
  isChain : chain.IsChain R

theorem SimpleCycle.imp {R S : String → String → Prop} {chain : List String}
    (h : SimpleCycle R chain) (RS : ∀ a b, R a b → S a b) : SimpleCycle S chain :=
  ⟨h.closed, h.isChain.imp RS⟩

theorem transGen_of_isChain {R : String → String → Prop} {n m : String} {l : List String}
    (h : (n :: l ++ [m]).IsChain R) : Relation.TransGen R n m := by
  induction l generalizing n with
  | nil => exact .single (List.isChain_cons_cons.1 h).1
  | cons a l ih =>
    obtain ⟨step, rest⟩ := List.isChain_cons_cons.1 h
    exact .head step (ih rest)

theorem SimpleCycle.exists_transGen {R : String → String → Prop} {chain : List String}
    (h : SimpleCycle R chain) : ∃ n, Relation.TransGen R n n := by
  obtain ⟨n, l, rfl, _⟩ := h.closed
  exact ⟨n, transGen_of_isChain h.isChain⟩

namespace DependencyOrder

variable {next : String → Option String} {unseen seen : List String} {name n : String}

theorem cycle_of_mem (hn : next name = some n) (h : n ∈ unseen) :
    cycle next unseen seen name = cycle next (unseen.erase n) (seen ++ [name]) n := by
  rw [cycle, hn]
  exact dif_pos h

theorem cycle_of_not_mem (hn : next name = some n) (h : n ∉ unseen) :
    cycle next unseen seen name = (seen ++ [name]).dropWhile (· != n) ++ [n] := by
  rw [cycle, hn]
  exact dif_neg h

theorem exists_dropWhile_ne_eq_cons {l : List String} (h : n ∈ l) :
    ∃ rest, l.dropWhile (· != n) = n :: rest := by
  cases left : l.dropWhile (· != n) with
  | nil =>
    have passed := List.dropWhile_eq_nil_iff.1 left n h
    simp at passed
  | cons a rest =>
    have stops : (a != n) = false := by
      have := List.head?_dropWhile_not (· != n) l
      rwa [left] at this
    rw [bne_eq_false_iff_eq.1 stops]
    exact ⟨rest, rfl⟩

theorem simpleCycle_cycle (distinct : (seen ++ [name] ++ unseen).Nodup)
    (stays : ∀ a ∈ seen ++ [name] ++ unseen, ∃ b ∈ seen ++ [name] ++ unseen, next a = some b)
    (walk : (seen ++ [name]).IsChain fun a b => next a = some b) :
    SimpleCycle (fun a b => next a = some b) (cycle next unseen seen name) := by
  have further {seen : List String} {name n : String} (hn : next name = some n)
      (walk : (seen ++ [name]).IsChain fun a b => next a = some b) :
      (seen ++ [name] ++ [n]).IsChain fun a b => next a = some b := by
    refine List.isChain_append.2 ⟨walk, List.isChain_singleton n, ?_⟩
    simp [hn]
  induction unseen, seen, name using cycle.induct next with
  | case1 unseen seen name stop =>
    obtain ⟨b, _, step⟩ := stays name (by simp)
    rw [stop] at step
    cases step
  | case2 unseen seen name passed n hn fresh _ ih =>
    have same : (passed ++ [n] ++ unseen.erase n).Perm (passed ++ unseen) := by
      rw [List.append_assoc]
      exact (List.perm_cons_erase fresh).symm.append_left passed
    rw [cycle_of_mem hn fresh]
    refine ih (same.symm.nodup distinct) (fun a ha => ?_) (further hn walk)
    obtain ⟨b, hb, step⟩ := stays a (same.mem_iff.1 ha)
    exact ⟨b, same.mem_iff.2 hb, step⟩
  | case3 unseen seen name n hn old =>
    obtain ⟨b, hb, step⟩ := stays name (by simp)
    have : b = n := Option.some.inj (step.symm.trans hn)
    have again : n ∈ seen ++ [name] := (List.mem_append.1 (this ▸ hb)).resolve_right old
    obtain ⟨rest, drop⟩ := exists_dropWhile_ne_eq_cons again
    have suffix : n :: rest <:+ seen ++ [name] := drop ▸ List.dropWhile_suffix _
    rw [cycle_of_not_mem hn old, drop]
    refine ⟨⟨n, rest, rfl, ?_⟩, ?_⟩
    · exact (List.nodup_append.1 distinct).1.sublist suffix.sublist
    · obtain ⟨before, eq⟩ := suffix
      have whole := further hn walk
      rw [← eq, List.append_assoc] at whole
      exact whole.suffix (List.suffix_append before _)

theorem exists_dependency_of_stuck (pending : List Schema) :
    ∀ s ∈ (peel pending).2, ∃ d ∈ s.dependencies, ∃ t ∈ (peel pending).2, t.name = d := by
  induction pending using peel.induct with
  | case1 pending h =>
    rw [peel_of_stuck h]
    intro s hs
    have waits : ¬ isReady pending s = true := List.filter_eq_nil_iff.1 h s hs
    simpa [isReady] using waits
  | case2 pending h _ _ _ _ ih =>
    rw [peel_of_layer h]
    exact ih

variable {stuck : List Schema} {m : String}

theorem of_next?_eq_some (h : next? stuck n = some m) :
    m ∈ stuck.map (·.name) ∧ ∃ s ∈ stuck, s.name = n ∧ m ∈ s.dependencies := by
  obtain ⟨s, hs, hm⟩ := Option.bind_eq_some_iff.1 h
  have name : s.name = n := by simpa using List.find?_some hs
  have left : ∃ t ∈ stuck, t.name = m := by simpa using List.find?_some hm
  obtain ⟨t, ht, rfl⟩ := left
  exact ⟨List.mem_map_of_mem ht, s, List.mem_of_find?_eq_some hs, name,
    List.mem_of_find?_eq_some hm⟩

theorem exists_next? (waits : ∀ s ∈ stuck, ∃ d ∈ s.dependencies, ∃ t ∈ stuck, t.name = d) :
    ∀ n ∈ stuck.map (·.name), ∃ m ∈ stuck.map (·.name), next? stuck n = some m := by
  intro n hn
  have found : (stuck.find? (·.name == n)).isSome = true := by simpa using hn
  obtain ⟨s, hs⟩ := Option.isSome_iff_exists.1 found
  obtain ⟨d, hd, t, ht, rfl⟩ := waits s (List.mem_of_find?_eq_some hs)
  have held : (s.dependencies.find? fun d => stuck.any (·.name == d)).isSome = true := by
    rw [List.find?_isSome]
    exact ⟨t.name, hd, List.any_eq_true.2 ⟨t, ht, beq_self_eq_true _⟩⟩
  obtain ⟨m, hm⟩ := Option.isSome_iff_exists.1 held
  have step : next? stuck n = some m := by rw [next?, hs, Option.bind_some, hm]
  exact ⟨m, (of_next?_eq_some step).1, step⟩

end DependencyOrder

namespace Registry
open DependencyOrder

variable {r : Registry} {failure : Failure}

theorem simpleCycle_of_dependencyOrder (h : r.dependencyOrder = .error failure) :
    ∃ chain, failure = .cyclicInheritance chain ∧ SimpleCycle r.WaitsFor chain := by
  unfold dependencyOrder at h
  split at h
  next => cases h
  next order first stuck peeled =>
    have stuck_eq : (peel r.toList).2 = first :: stuck := by rw [peeled]
    have waits := exists_dependency_of_stuck r.toList
    rw [stuck_eq] at waits
    have held : ∀ s ∈ first :: stuck, s ∈ r.toList := fun s hs =>
      (peel_perm r.toList).mem_iff.1 (List.mem_append_right _ (stuck_eq ▸ hs))
    have distinct : ((first :: stuck).map (·.name)).Nodup := by
      have whole := ((peel_perm r.toList).map (·.name)).symm.nodup r.nodup_keys
      rw [stuck_eq, List.map_append] at whole
      exact (List.nodup_append.1 whole).2.1
    have closes : SimpleCycle (fun a b => next? (first :: stuck) a = some b)
        (cycle (next? (first :: stuck)) (stuck.map (·.name)) [] first.name) :=
      simpleCycle_cycle distinct (exists_next? waits) (List.isChain_singleton _)
    refine ⟨_, (Except.error.inj h).symm, closes.imp fun a b step => ?_⟩
    obtain ⟨left, s, hs, rfl, dep⟩ := of_next?_eq_some step
    obtain ⟨t, ht, rfl⟩ := List.mem_map.1 left
    exact waitsFor_of_mem (held s hs) dep (Keyed.contains_iff.2 ⟨t, Keyed.find?_of_mem (held t ht)⟩)

theorem exists_dependencyOrder_iff : (∃ order, r.dependencyOrder = .ok order) ↔ r.Acyclic := by
  constructor
  · rintro ⟨order, h⟩
    exact (schedule_of_dependencyOrder h).acyclic
  · intro acyclic
    cases h : r.dependencyOrder with
    | ok order => exact ⟨order, rfl⟩
    | error failure =>
      obtain ⟨chain, _, cycle⟩ := simpleCycle_of_dependencyOrder h
      obtain ⟨n, again⟩ := cycle.exists_transGen
      exact absurd again (acyclic n)

theorem exists_cyclicInheritance_iff :
    (∃ chain, r.dependencyOrder = .error (.cyclicInheritance chain)) ↔ ¬ r.Acyclic := by
  rw [← exists_dependencyOrder_iff]
  cases h : r.dependencyOrder with
  | ok order => simp
  | error failure =>
    obtain ⟨chain, rfl, _⟩ := simpleCycle_of_dependencyOrder h
    simp

end Registry

end ApiModel
