import RequestScheduler.Cell
import RequestScheduler.Sums

/-!
# Boards of cells with continuations that act on cells

A board holds settle-once cells under handles; several handles may name one cell. A continuation
reports its tag and then acts: it settles cells, asks whether they are settled, and registers
further continuations, to any depth. What remains to be done stands in a list of work items, and
what an item sets off comes before the items behind it. `Board.drain` carries everything out, and
ends because there is less left to do after every item (`Board.step?_lt`).

Events are kept with the latest first.
-/

namespace RequestScheduler

/-- What a continuation does. Cells go by their handles, and by a label in what is reported. `V`
is the type of values, `D` that of tags and labels. -/
inductive Action (V D : Type) where
  /-- Tries to settle a cell, and reports whether that succeeded when all is run. -/
  | settle (handle : Nat) (label : D) (value : V)
  /-- Reports whether a cell is settled. -/
  | query (handle : Nat) (label : D)
  /-- Registers a continuation with this tag and these actions. -/
  | register (handle : Nat) (tag : D) (actions : List (Action V D))
  deriving Repr

/-- A continuation: a tag to report and actions to perform. -/
structure Reaction (V D : Type) where
  tag : D
  actions : List (Action V D)
  deriving Repr

mutual

/-- The number of actions in an action, those of its continuation included. -/
def Action.size {V D : Type} : Action V D → Nat
  | .settle .. => 2
  | .query .. => 1
  | .register _ _ actions => 2 + Action.sizes actions

/-- The number of actions in a list. -/
def Action.sizes {V D : Type} : List (Action V D) → Nat
  | [] => 0
  | a :: rest => a.size + Action.sizes rest

end

/-- The number of actions in a continuation. -/
def Reaction.size {V D : Type} (r : Reaction V D) : Nat := 1 + Action.sizes r.actions

namespace Board

/-- What can be observed of a board. -/
inductive Event (D : Type) where
  | wake (waker : Nat)
  /-- A continuation runs. -/
  | run (tag : D)
  /-- A continuation tried to settle a cell. -/
  | settle (label : D) (won : Bool)
  /-- A continuation asked whether a cell is settled. -/
  | query (label : D) (answer : Bool)
  deriving DecidableEq, Repr

/-- What is still to be done. -/
inductive Work (V D : Type) where
  | perform (a : Action V D)
  | run (r : Reaction V D)
  | emit (e : Event D)
  deriving Repr

def Work.size {V D : Type} : Work V D → Nat
  | .perform a => a.size
  | .run r => r.size
  | .emit _ => 1

end Board

/-- Cells under handles, with what is still to be done and what has happened. -/
structure Board (V D : Type) where
  cells : List (Cell V Nat (Reaction V D)) := []
  /-- The cell that each handle names. -/
  handles : List Nat := []
  work : List (Board.Work V D) := []
  events : List (Board.Event D) := []
  deriving Repr

namespace Board

variable {V D : Type}

instance : Inhabited (Board V D) := ⟨{}⟩

/-- The cell that a handle names, with its position. -/
def cell? (b : Board V D) (handle : Nat) : Option (Nat × Cell V Nat (Reaction V D)) := do
  let i ← b.handles[handle]?
  let c ← b.cells[i]?
  return (i, c)

/-- Whether the cell that a handle names is settled. -/
def isSettled (b : Board V D) (handle : Nat) : Bool :=
  ((b.cell? handle).map (·.2.isSettled)).getD false

/-- A new cell with a handle of its own. -/
def make (b : Board V D) : Board V D :=
  { b with cells := b.cells ++ [.empty], handles := b.handles ++ [b.cells.length] }

/-- One more handle of a cell. -/
def clone (i : Nat) (b : Board V D) : Board V D := { b with handles := b.handles ++ [i] }

/-- Puts work items in front of the others. -/
def push (items : List (Work V D)) (b : Board V D) : Board V D :=
  { b with work := items ++ b.work }

def emit (e : Event D) (b : Board V D) : Board V D := { b with events := e :: b.events }

/-- What waits for the settlement of a cell: the wakers are woken, and then the continuations are
run. -/
def waiting (c : Cell V Nat (Reaction V D)) : List (Work V D) :=
  c.wakers.map (fun w => .emit (.wake w)) ++ c.continuations.map .run

/-- Settles a cell and then does `after`: the value is stored first, and what waits for it comes
next. A settled cell stays as it is. -/
def settle (i : Nat) (v : V) (after : List (Work V D)) (b : Board V D) : Board V D :=
  match b.cells[i]? with
  | none => b.push after
  | some c =>
    { b with
      cells := b.cells.set i (c.settle v)
      work := waiting c ++ after ++ b.work }

/-- Registers a continuation. On a settled cell it runs now. -/
def register (i : Nat) (r : Reaction V D) (b : Board V D) : Board V D :=
  match b.cells[i]? with
  | none => b
  | some c =>
    if c.isSettled then b.push [.run r]
    else { b with cells := b.cells.set i (c.register r) }

/-- Has a waker woken when a cell settles. -/
def await (i waker : Nat) (b : Board V D) : Board V D :=
  match b.cells[i]? with
  | none => b
  | some c => { b with cells := b.cells.set i (c.await waker) }

/-- Performs one action of a continuation. -/
def perform (a : Action V D) (b : Board V D) : Board V D :=
  match a with
  | .settle handle label v =>
    match b.cell? handle with
    | none => b
    | some (i, c) => b.settle i v [.emit (.settle label !c.isSettled)]
  | .query handle label =>
    match b.cell? handle with
    | none => b
    | some (_, c) => b.emit (.query label c.isSettled)
  | .register handle tag actions =>
    match b.cell? handle with
    | none => b
    | some (i, _) => b.register i { tag, actions }

/-- Carries out one work item. -/
def exec (w : Work V D) (b : Board V D) : Board V D :=
  match w with
  | .perform a => b.perform a
  | .run r => (b.emit (.run r.tag)).push (r.actions.map .perform)
  | .emit e => b.emit e

/-- The first work item, if there is one, is carried out. -/
def step? (b : Board V D) : Option (Board V D) :=
  match b.work with
  | [] => none
  | w :: rest => some (exec w { b with work := rest })

/-- What is left to be done, and what waits for a settlement, makes up at most this much work. -/
def size (b : Board V D) : Nat :=
  total (b.work.map Work.size) + total (b.cells.map fun c => total ((waiting c).map Work.size))

theorem size_push (items : List (Work V D)) (b : Board V D) :
    (b.push items).size = total (items.map Work.size) + b.size := by
  simp only [push, size, List.map_append, total_append]
  omega

@[simp] theorem size_emit (e : Event D) (b : Board V D) : (b.emit e).size = b.size := rfl

theorem total_size_perform (actions : List (Action V D)) :
    total ((actions.map Work.perform).map Work.size) = Action.sizes actions := by
  induction actions with
  | nil => simp [Action.sizes]
  | cons a rest ih =>
    simp only [List.map_cons, total_cons, Action.sizes, ih]
    rfl

@[simp] theorem waiting_settle (v : V) (c : Cell V Nat (Reaction V D)) :
    waiting (c.settle v) = [] := by
  simp [waiting]

theorem waiting_register (r : Reaction V D) {c : Cell V Nat (Reaction V D)}
    (h : c.isSettled = false) : waiting (c.register r) = waiting c ++ [.run r] := by
  simp [waiting, Cell.continuations_register r c h]

theorem size_settle (i : Nat) (v : V) (after : List (Work V D)) (b : Board V D) :
    (b.settle i v after).size = total (after.map Work.size) + b.size := by
  unfold settle
  split
  · exact size_push after b
  · rename_i c h
    have := total_map_set (f := fun c : Cell V Nat (Reaction V D) =>
      total ((waiting c).map Work.size)) (b := c.settle v) h
    simp only [waiting_settle, List.map_nil, total_nil] at this
    simp only [size, List.map_append, total_append]
    omega

theorem size_register (i : Nat) (r : Reaction V D) (b : Board V D) :
    (b.register i r).size ≤ r.size + b.size := by
  unfold register
  split
  · omega
  · rename_i c h
    split
    · simp [size_push, Work.size]
    · rename_i hs
      rw [Bool.not_eq_true] at hs
      have := total_map_set (f := fun c : Cell V Nat (Reaction V D) =>
        total ((waiting c).map Work.size)) (b := c.register r) h
      simp only [waiting_register r hs, List.map_append, total_append, List.map_cons, List.map_nil,
        total_cons, total_nil, Work.size] at this
      simp only [size]
      omega

theorem size_perform (a : Action V D) (b : Board V D) :
    (b.perform a).size < a.size + b.size := by
  unfold perform
  cases a with
  | settle handle label v =>
    dsimp only
    split
    · simp only [Action.size]
      omega
    · simp only [size_settle, Action.size, List.map_cons, List.map_nil, total_cons,
        total_nil, Work.size]
      omega
  | query handle label =>
    dsimp only
    split <;> simp only [size_emit, Action.size] <;> omega
  | register handle tag actions =>
    dsimp only
    split
    · simp only [Action.size]
      omega
    · rename_i i _ _
      have := size_register i { tag, actions } b
      simp only [Reaction.size] at this
      simp only [Action.size]
      omega

/-- Every work item leaves less to do. -/
theorem step?_lt {b t : Board V D} (h : b.step? = some t) : t.size < b.size := by
  unfold step? at h
  split at h
  · simp at h
  · rename_i w rest hw
    obtain rfl := Option.some.inj h
    have hb : b.size = w.size + ({ b with work := rest } : Board V D).size := by
      simp only [size, hw, List.map_cons, total_cons]
      omega
    rw [hb]
    generalize ({ b with work := rest } : Board V D) = u
    cases w with
    | perform a => exact size_perform a u
    | run r =>
      simp only [exec, size_push, size_emit, total_size_perform, Work.size, Reaction.size]
      omega
    | emit e =>
      simp only [exec, size_emit, Work.size]
      omega

/-- Carries out the work, and what it sets off, until nothing is left to be done. -/
def drain (b : Board V D) : Board V D :=
  match h : b.step? with
  | none => b
  | some t =>
    have := step?_lt h
    t.drain
termination_by b.size

theorem drain_of_step? {b t : Board V D} (h : b.step? = some t) : b.drain = t.drain := by
  rw [drain]
  split <;> simp_all

theorem drain_of_atRest {b : Board V D} (h : b.work = []) : b.drain = b := by
  rw [drain]
  split
  · rfl
  · rename_i h'
    simp [step?, h] at h'

/-- After draining, nothing is left to be done. -/
theorem work_drain (b : Board V D) : b.drain.work = [] := by
  rw [drain]
  split
  · rename_i h
    unfold step? at h
    split at h
    · assumption
    · simp at h
  · rename_i t h
    have := step?_lt h
    exact work_drain t
termination_by b.size

/-- The events that `after` has beyond `before`, in their order. -/
def newEvents (before after : Board V D) : List (Event D) :=
  (after.events.take (after.events.length - before.events.length)).reverse

end Board

end RequestScheduler
