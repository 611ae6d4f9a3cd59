/-!
# The tasks that a runtime is to poll

A runtime keeps its ready tasks in two queues. Tasks made ready while another task is polled come
first; tasks made ready from outside come when there are none of those. Each queue is served
first-in first-out, so a runtime that is only woken from outside serves its tasks in the order in
which they became ready.
-/

namespace RequestScheduler

/-- The tasks that are ready to be polled. -/
structure Agenda where
  /-- Made ready while a task was polled. -/
  own : List Nat := []
  /-- Made ready from outside. -/
  arrived : List Nat := []
  /-- Whether a task is polled at the moment. -/
  polling : Bool := false
  deriving DecidableEq, Repr, Inhabited

namespace Agenda

/-- A task becomes ready, behind the others of its queue. -/
def add (task : Nat) (a : Agenda) : Agenda :=
  if a.polling then { a with own := a.own ++ [task] } else { a with arrived := a.arrived ++ [task] }

/-- Tasks become ready, one after the other. -/
def addAll (tasks : List Nat) (a : Agenda) : Agenda := tasks.foldl (fun a task => a.add task) a

/-- A task is ready no longer. -/
def remove (task : Nat) (a : Agenda) : Agenda :=
  { a with own := a.own.filter (· != task), arrived := a.arrived.filter (· != task) }

/-- The task to be polled next, and the agenda while it is polled. -/
def next? (a : Agenda) : Option (Nat × Agenda) :=
  match a.own, a.arrived with
  | task :: rest, _ => some (task, { a with own := rest, polling := true })
  | [], task :: rest => some (task, { a with arrived := rest, polling := true })
  | [], [] => none

/-- No task is polled any more. -/
def pause (a : Agenda) : Agenda := { a with polling := false }

/-- How many tasks are ready. -/
def size (a : Agenda) : Nat := a.own.length + a.arrived.length

@[simp] theorem size_add (task : Nat) (a : Agenda) : (a.add task).size = a.size + 1 := by
  unfold add size
  split
  · simp only [List.length_append, List.length_singleton]
    omega
  · simp only [List.length_append, List.length_singleton]
    omega

@[simp] theorem size_pause (a : Agenda) : a.pause.size = a.size := rfl

theorem size_remove_le (task : Nat) (a : Agenda) : (a.remove task).size ≤ a.size := by
  have := List.length_filter_le (· != task) a.own
  have := List.length_filter_le (· != task) a.arrived
  simp only [remove, size]
  omega

theorem size_of_next? {a b : Agenda} {task : Nat} (h : a.next? = some (task, b)) :
    a.size = b.size + 1 := by
  obtain ⟨own, arrived, polling⟩ := a
  cases own with
  | cons x own =>
    obtain ⟨rfl, rfl⟩ := Prod.mk.inj (Option.some.inj h)
    exact Nat.add_right_comm own.length 1 arrived.length
  | nil =>
    cases arrived with
    | cons y arrived =>
      obtain ⟨rfl, rfl⟩ := Prod.mk.inj (Option.some.inj h)
      rfl
    | nil => cases h

/-- Nothing is polled next exactly when no task is ready. -/
theorem next?_eq_none_iff (a : Agenda) : a.next? = none ↔ a.size = 0 := by
  obtain ⟨own, arrived, polling⟩ := a
  rcases own with _ | ⟨x, own⟩ <;> rcases arrived with _ | ⟨y, arrived⟩ <;>
    simp [next?, size]

end Agenda

end RequestScheduler
