import RequestScheduler.Request
import RequestScheduler.Refusal
import RequestScheduler.Sums

/-!
# The two halves of a request

A request is made as a pair: a settler that publishes the outcome, and a future that hands it out.
Both halves can request cancellation. Continuations may use both halves again, to any depth; each of
their actions is reported with its answer when everything that it set off has run. A future can also
be made settled, and the settler then belongs to a request of its own.

Events are kept with the latest first.
-/

namespace RequestScheduler.Pair

/-- An action on one of the halves, as a continuation can take it. `D` is the type of the client's
values. -/
inductive Act (D : Type) where
  | publish (name : String) (outcome : Outcome D)
  | cancel
  /-- Settles as cancelled without setting the indicator. -/
  | abandon
  /-- Sets the indicator and nothing else. -/
  | trip
  | tripped
  | settled
  /-- Publishes as often as `calls` says, from as many threads. -/
  | racePublish (calls : Nat) (outcome : Outcome D)
  /-- Cancels as often as `calls` says, from as many threads. -/
  | raceCancel (calls : Nat)
  | futureCancel
  | status
  | onSettled (tag : D) (acts : List (Act D))
  | debug
  | unknown (name : String)
  deriving Repr, Inhabited

/-- A continuation: a tag to report and actions to take. -/
structure Reaction (D : Type) where
  tag : D
  acts : List (Act D)
  deriving Repr

namespace Act

/-- The name under which an action is reported. -/
def name {D : Type} : Act D → String
  | .publish name _ => name
  | .cancel => "cancel"
  | .abandon => "abandon"
  | .trip => "trip"
  | .tripped => "tripped"
  | .settled => "settled"
  | .racePublish .. => "race_complete"
  | .raceCancel _ => "race_cancel"
  | .futureCancel => "future_cancel"
  | .status => "status"
  | .onSettled .. => "on_settled"
  | .debug => "debug"
  | .unknown name => name

/-- Whether an action needs the future. -/
def isConsumer {D : Type} : Act D → Bool
  | .futureCancel | .status | .onSettled .. | .debug | .unknown _ => true
  | _ => false

end Act

mutual

/-- What taking an action costs at most, with all that its continuation does. -/
def Act.size {D : Type} : Act D → Nat
  | .onSettled _ acts => 3 + Act.sizes acts
  | _ => 2

/-- What taking a list of actions costs at most. -/
def Act.sizes {D : Type} : List (Act D) → Nat
  | [] => 0
  | a :: rest => a.size + Act.sizes rest

end

def Reaction.size {D : Type} (r : Reaction D) : Nat := 1 + Act.sizes r.acts

/-- The answer to an action or a step. -/
inductive Answer (D : Type) where
  | nothing
  | flag (b : Bool)
  | number (n : Nat)
  | text (s : String)
  | status (s : Status)
  /-- Whether cancellation was requested, by the settler and by the indicator. -/
  | tripped (b : Bool)
  /-- Whether the settler's request is settled, and its status. -/
  | settled (s : Status)
  | pending
  | outcome (o : Outcome D)
  | panic (message : String)
  | refusal (r : Refusal)
  deriving Repr

/-- What can be observed of a request. -/
inductive Event (D : Type) where
  | wake (waker : Nat)
  /-- A continuation runs. -/
  | run (tag : D)
  /-- A continuation's action, with its answer. -/
  | acted (name : String) (answer : Answer D)
  deriving Repr

/-- What is still to be done. -/
inductive Work (D : Type) where
  | act (a : Act D)
  | run (r : Reaction D)
  | emit (e : Event D)
  deriving Repr

def Work.size {D : Type} : Work D → Nat
  | .act a => a.size
  | .run r => r.size
  | .emit _ => 1

/-- Both halves of a request, with what is still to be done and what has happened. -/
structure State (D : Type) where
  /-- The settler's request. -/
  request : Request D Nat (Reaction D) := {}
  /-- The future's own request, if it was made settled. -/
  ready : Option (Request D Nat (Reaction D)) := none
  /-- Whether the future is there. -/
  held : Bool := true
  /-- Whether a thread waits for the future's outcome, or has it, to be asked for it. -/
  joining : Bool := false
  work : List (Work D) := []
  events : List (Event D) := []

namespace State

variable {D : Type}

/-- A pair, with the indicator set beforehand or not, and a future of its own or not. -/
def start (tripped : Bool) (ready : Option (Outcome D)) : State D where
  request := { tripped }
  ready := ready.map Request.ready

/-- The request that the future belongs to. -/
def future (s : State D) : Request D Nat (Reaction D) := s.ready.getD s.request

/-- Puts work items in front of the others. -/
def push (items : List (Work D)) (s : State D) : State D := { s with work := items ++ s.work }

def emit (e : Event D) (s : State D) : State D := { s with events := e :: s.events }

/-- Publishes an outcome and then does `after`: the outcome is stored first, then the wakers are
woken, and then the continuations are run. -/
def publish (o : Outcome D) (after : List (Work D)) (s : State D) : State D :=
  { s with
    request := s.request.publish o
    events := (s.request.cell.wakers.map .wake).reverse ++ s.events
    work := s.request.cell.continuations.map .run ++ after ++ s.work }

/-- Sets the indicator. -/
def trip (s : State D) : State D := { s with request := s.request.trip }

/-- Requests cancellation and then does `after`. -/
def cancel (after : List (Work D)) (s : State D) : State D :=
  s.trip.publish (.error .cancelled) after

/-- The answer to an action. One that needs the future is refused without it. -/
def answer (gone : Refusal) (s : State D) (a : Act D) : Answer D :=
  if a.isConsumer && !s.held then .refusal gone
  else match a with
    | .publish .. | .cancel | .abandon => .flag !s.request.isSettled
    | .trip => .flag !s.request.tripped
    | .tripped => .tripped s.request.tripped
    | .settled => .settled s.request.status
    | .racePublish calls _ | .raceCancel calls =>
      .number (if calls = 0 then 0 else (!s.request.isSettled).toNat)
    | .futureCancel => .flag !s.future.isSettled
    | .status => .status s.future.status
    | .onSettled .. => .nothing
    | .debug => .text s.future.status.futureText
    | .unknown _ => .refusal .badStep

/-- Takes an action and then does `after`. -/
def act (a : Act D) (after : List (Work D)) (s : State D) : State D :=
  if a.isConsumer && !s.held then s.push after
  else match a with
    | .publish _ o => s.publish o after
    | .cancel => s.cancel after
    | .abandon => s.publish (.error .cancelled) after
    | .trip => s.trip.push after
    | .racePublish calls o => if calls = 0 then s.push after else s.publish o after
    | .raceCancel calls => if calls = 0 then s.push after else s.cancel after
    | .futureCancel =>
      match s.ready with
      | none => s.cancel after
      | some r => { s with ready := some r.cancel }.push after
    | .onSettled tag acts =>
      if s.future.isSettled then s.push (.run { tag, acts } :: after)
      else { s with request := s.request.register { tag, acts } }.push after
    | .tripped | .settled | .status | .debug | .unknown _ => s.push after

/-- Carries out one work item. -/
def exec (w : Work D) (s : State D) : State D :=
  match w with
  | .act a => s.act a [.emit (.acted a.name (s.answer .badStep a))]
  | .run r => (s.emit (.run r.tag)).push (r.acts.map .act)
  | .emit e => s.emit e

/-- The first work item, if there is one, is carried out. -/
def step? (s : State D) : Option (State D) :=
  match s.work with
  | [] => none
  | w :: rest => some (exec w { s with work := rest })

/-- What is left to be done costs at most this. -/
def size (s : State D) : Nat :=
  total (s.work.map Work.size) + total (s.request.cell.continuations.map Reaction.size)

@[simp] theorem size_push (items : List (Work D)) (s : State D) :
    (s.push items).size = total (items.map Work.size) + s.size := by
  simp only [push, size, List.map_append, total_append]
  omega

@[simp] theorem size_emit (e : Event D) (s : State D) : (s.emit e).size = s.size := rfl

@[simp] theorem size_trip (s : State D) : s.trip.size = s.size := rfl

theorem total_size_act (acts : List (Act D)) :
    total ((acts.map Work.act).map Work.size) = Act.sizes acts := by
  induction acts with
  | nil => simp [Act.sizes]
  | cons a rest ih =>
    simp only [List.map_cons, total_cons, Act.sizes, ih]
    rfl

@[simp] theorem size_publish (o : Outcome D) (after : List (Work D)) (s : State D) :
    (s.publish o after).size = total (after.map Work.size) + s.size := by
  have : total ((s.request.cell.continuations.map Work.run).map Work.size) =
      total (s.request.cell.continuations.map Reaction.size) := by
    simp [List.map_map, Function.comp_def, Work.size]
  simp only [publish, size, List.map_append, total_append, this, Request.continuations_publish,
    List.map_nil, total_nil]
  omega

@[simp] theorem size_cancel (after : List (Work D)) (s : State D) :
    (s.cancel after).size = total (after.map Work.size) + s.size := by
  simp [cancel]

theorem size_register (r : Reaction D) (s : State D) :
    ({ s with request := s.request.register r } : State D).size ≤ r.size + s.size := by
  simp only [size, Request.register]
  cases s.request.cell with
  | pending ws ks =>
    simp only [Cell.register, Cell.continuations, List.map_append, total_append, List.map_cons,
      List.map_nil, total_cons, total_nil]
    omega
  | settled v taken =>
    simp only [Cell.register, Cell.continuations, List.map_nil, total_nil]
    omega

theorem size_act (a : Act D) (after : List (Work D)) (s : State D) :
    (s.act a after).size + 2 ≤ a.size + total (after.map Work.size) + s.size := by
  unfold act
  split
  · rw [size_push]
    cases a <;> simp only [Act.size] <;> omega
  · cases a <;> dsimp only
    case onSettled tag acts _ =>
      split
      · simp only [size_push, List.map_cons, total_cons, Work.size, Reaction.size, Act.size]
        omega
      · have := size_register { tag, acts } s
        simp only [Reaction.size] at this
        simp only [size_push, Act.size]
        omega
    case racePublish calls o _ => split <;> simp [Act.size] <;> omega
    case raceCancel calls _ => split <;> simp [Act.size] <;> omega
    case futureCancel =>
      split
      · simp [Act.size]
        omega
      · simp only [size_push, Act.size]
        simp only [size]
        omega
    all_goals
      simp [Act.size]
      omega

/-- Every work item uses up an action. -/
theorem step?_lt {s t : State D} (h : s.step? = some t) : t.size < s.size := by
  unfold step? at h
  split at h
  · simp at h
  · rename_i w rest hw
    obtain rfl := Option.some.inj h
    have hs : s.size = w.size + ({ s with work := rest } : State D).size := by
      simp only [size, hw, List.map_cons, total_cons]
      omega
    rw [hs]
    generalize ({ s with work := rest } : State D) = u
    cases w with
    | act a =>
      have := size_act a [.emit (.acted a.name (u.answer .badStep a))] u
      simp only [List.map_cons, List.map_nil, total_cons, total_nil, Work.size] at this
      simp only [exec, Work.size]
      omega
    | run r =>
      simp only [exec, size_push, size_emit, total_size_act, Work.size, Reaction.size]
      omega
    | emit e =>
      simp only [exec, size_emit, Work.size]
      omega

/-- Carries out the work, and what it sets off, until nothing is left to be done. -/
def drain (s : State D) : State D :=
  match h : s.step? with
  | none => s
  | some t =>
    have := step?_lt h
    t.drain
termination_by s.size

/-- After draining, nothing is left to be done. -/
theorem work_drain (s : State D) : s.drain.work = [] := by
  rw [drain]
  split
  · rename_i h
    unfold step? at h
    split at h
    · assumption
    · simp at h
  · rename_i t h
    have := step?_lt h
    exact work_drain t
termination_by s.size

/-- The events that `after` has beyond `before`, in their order. -/
def newEvents (before after : State D) : List (Event D) :=
  (after.events.take (after.events.length - before.events.length)).reverse

end State

end RequestScheduler.Pair
