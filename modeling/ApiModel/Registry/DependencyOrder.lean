import ApiModel.Registry

/-!
The order in which schemas are normalized. A schema depends on its parent and on the schemas that
it is an `allOf` of, itself excepted. Schemas that wait for nothing form the first layer, those that
wait only for it the second, and so on; within a layer the order is by name. Where schemas remain
that all wait for each other, following the first such dependency from the first of them closes a
cycle.
-/

namespace ApiModel

def Schema.embedded (s : Schema) : List Component :=
  s.composedFrom.filter fun k => !k.isAlternative && k.name != s.name

def Schema.dependencies (s : Schema) : List String :=
  s.parent.toList ++ s.embedded.map (·.name)

namespace DependencyOrder

def isReady (pending : List Schema) (s : Schema) : Bool :=
  s.dependencies.all fun d => pending.all (·.name != d)

def layer (pending : List Schema) : List Schema := pending.filter (isReady pending)

def waiting (pending : List Schema) : List Schema := pending.filter (!isReady pending ·)

theorem length_waiting_lt {pending : List Schema} (h : layer pending ≠ []) :
    (waiting pending).length < pending.length := by
  obtain ⟨s, hs⟩ := List.exists_mem_of_ne_nil _ h
  obtain ⟨mem, ready⟩ := List.mem_filter.1 hs
  refine Nat.lt_of_le_of_ne (List.length_filter_le _ _) fun eq => ?_
  have := List.length_filter_eq_length_iff.1 eq s mem
  simp [ready] at this

/-- The pending schemas layer by layer, and those that no layer can take. -/
def peel (pending : List Schema) : List Schema × List Schema :=
  if h : layer pending = [] then ([], pending)
  else
    have := length_waiting_lt h
    let (order, stuck) := peel (waiting pending)
    (layer pending ++ order, stuck)
termination_by pending.length

def next? (stuck : List Schema) (name : String) : Option String :=
  (stuck.find? (·.name == name)).bind fun s =>
    s.dependencies.find? fun d => stuck.any (·.name == d)

/-- Follows `next` until a name comes again, and cuts off what was passed before it. -/
def cycle (next : String → Option String) (unseen seen : List String) (name : String) :
    List String :=
  let passed := seen ++ [name]
  match next name with
  | none => passed
  | some n =>
    if h : n ∈ unseen then
      have : (unseen.erase n).length < unseen.length := by
        rw [List.length_erase_of_mem h]
        exact Nat.sub_one_lt_of_lt (List.length_pos_of_mem h)
      cycle next (unseen.erase n) passed n
    else passed.dropWhile (· != n) ++ [n]
termination_by unseen.length

end DependencyOrder

open DependencyOrder

/-- The names of all schemas, each after everything that it depends on. -/
def Registry.dependencyOrder (r : Registry) : Except Failure (List String) :=
  match peel r.toList with
  | (order, []) => .ok (order.map (·.name))
  | (_, s :: stuck) =>
    .error (.cyclicInheritance
      (cycle (next? (s :: stuck)) (stuck.map (·.name)) [] s.name))

end ApiModel
