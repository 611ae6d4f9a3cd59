/-!
# Permits for concurrent reads

A bounded pool of permits with a first-in first-out queue of tasks that wait for one. A returned
permit goes to the task at the front of the queue, or back to the pool if nobody waits. Closing
the pool empties the queue; nobody gets a permit after that.
-/

namespace RequestScheduler

/-- A pool of permits. -/
structure Permits where
  available : Nat
  /-- The tasks that wait for a permit, the longest wait first. -/
  queue : List Nat := []
  closed : Bool := false
  deriving DecidableEq, Repr, Inhabited

namespace Permits

/-- What a task gets that asks for a permit. -/
inductive Answer where
  | closed
  | granted
  | queued
  deriving DecidableEq, Repr

/-- A task asks for a permit. -/
def acquire (task : Nat) (p : Permits) : Answer × Permits :=
  if p.closed then (.closed, p)
  else match p.available with
    | 0 => (.queued, { p with queue := p.queue ++ [task] })
    | n + 1 => (.granted, { p with available := n })

/-- A permit comes back: the answer is the task that it is handed to. -/
def release (p : Permits) : Option Nat × Permits :=
  match p.queue with
  | [] => (none, { p with available := p.available + 1 })
  | task :: rest => (some task, { p with queue := rest })

theorem release_of_nil {p : Permits} (h : p.queue = []) :
    p.release = (none, { p with available := p.available + 1 }) := by
  simp only [release, h]

theorem release_of_cons {p : Permits} {task : Nat} {rest : List Nat} (h : p.queue = task :: rest) :
    p.release = (some task, { p with queue := rest }) := by
  simp only [release, h]

/-- A task stops waiting. -/
def leave (task : Nat) (p : Permits) : Permits := { p with queue := p.queue.filter (· != task) }

/-- Closes the pool: the answer lists the tasks that waited, in their order. -/
def close (p : Permits) : List Nat × Permits := (p.queue, { p with queue := [], closed := true })

/-- The most permits that a pool can be made with. -/
def maximum : Nat := 0x1FFFFFFFFFFFFFFF

end Permits

end RequestScheduler
