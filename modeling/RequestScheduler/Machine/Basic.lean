import RequestScheduler.Admission
import RequestScheduler.Agenda
import RequestScheduler.Permits
import RequestScheduler.Program
import RequestScheduler.Request
import RequestScheduler.Trace

/-!
# The state of a scheduling machine

A machine is a request manager together with its runtime and its clients, at one moment. A request
is an entry, named by its position. Whatever is still to be done before the machine is at rest
stands in a list of work items; carrying out the first item may put further items in front, so
that a nested submission is finished before the submission that caused it goes on.

Events and log events are kept with the latest first.
-/

namespace RequestScheduler

/-- What clients and callbacks can observe, in the order in which it happens. -/
inductive Event (D : Type) where
  /-- A waker was woken. -/
  | wake (waker : Nat)
  /-- A callback began, and whether its cancellation was requested by then. -/
  | start (id : Nat) (tripped : Bool)
  /-- A parked callback went on. -/
  | resume (id : Nat) (tripped : Bool)
  /-- A callback returned. -/
  | finish (id : Nat)
  | log (d : D)
  | submitted (id : Nat)
  /-- A cancellation by a client, and whether it settled the request, if there was one. -/
  | cancel (id : Nat) (settled : Option Bool)
  | cancelAll (count : Nat)
  | status (id : Nat) (status : Option Status)
  | snapshot (view : Snapshot)
  /-- A continuation was registered, if the request could be named. -/
  | onSettled (id : Nat) (registered : Bool)
  /-- A client's continuation runs. -/
  | reaction (tag : D)
  /-- A slot's own job begins. -/
  | job (id : Nat) (tripped : Bool)
  /-- A waiting job was released. -/
  | woke (id : Nat) (tripped : Bool)
  | settled (id : Nat)
  | vacated (id : Nat)
  deriving Repr

/-- What runs when a cell settles. -/
inductive Continuation (D : Type) where
  /-- Counts down a gate. -/
  | release (gate : Nat)
  /-- A client's continuation: reports its tag and performs its effects. -/
  | react (tag : D) (effects : List (Effect D))
  /-- Reports an event. -/
  | announce (event : Event D)
  deriving Repr

/-- Where a request stands on its way through a slot. -/
inductive Stage where
  /-- Never had a slot. -/
  | refused
  /-- Waits for other requests. -/
  | queued
  /-- Handed to the runtime. -/
  | dispatched
  | vacated
  deriving DecidableEq, Repr, Inhabited

/-- How far the task of a dispatched slot has come. -/
inductive Task where
  | unspawned
  /-- Not polled yet. -/
  | fresh
  /-- Waits for a permit. -/
  | queueing
  /-- Was handed a permit and not polled since. -/
  | handed
  /-- Runs its job, with a permit if it needs one. -/
  | working
  | ended
  deriving DecidableEq, Repr, Inhabited

/-- What became of a request's job. -/
inductive Callback (D : Type) where
  /-- Not begun: it belongs to the slot or to its task. -/
  | held (job : Job D)
  /-- Handed to the pool of blocking threads, not begun. -/
  | offered (body : Body D)
  /-- Performs its effects now. -/
  | running
  /-- Parked between its two lists of effects. -/
  | parked (body : Body D)
  /-- Returned with this outcome, which is not published yet. -/
  | returned (outcome : Outcome (Value D))
  /-- Begun within the task, and waits to be released. -/
  | latched (value : Value D)
  /-- Over, its outcome published or discarded. -/
  | spent
  /-- Given up without having begun. -/
  | dropped
  deriving Repr

/-- Whether a client can use the future of a request. -/
inductive Hold where
  /-- The submission has not returned. -/
  | withheld
  | held
  | gone
  deriving DecidableEq, Repr, Inhabited

/-- A request with its slot, its task, its job and its future. -/
structure Entry (D : Type) where
  kind : Kind
  /-- The sequence number, zero for a refused submission. -/
  seq : UInt64
  request : Request (Value D) Nat (Continuation D)
  stage : Stage
  /-- Settled when the slot is vacated. -/
  vacancy : Cell Unit Empty (Continuation D)
  task : Task
  callback : Callback D
  /-- Whether the parked callback or waiting job may go on. -/
  released : Bool
  future : Hold
  deriving Repr

/-- Dispatches a slot when it has been released as often as `remaining` says. -/
structure Gate where
  slot : Nat
  remaining : Nat
  deriving DecidableEq, Repr

/-- One thing that is still to be done before the machine is at rest. -/
inductive Work (D : Type) where
  | perform (e : Effect D)
  | emit (e : Event D)
  | note (t : TraceEvent)
  | run (k : Continuation D)
  /-- Publishes an outcome. -/
  | settle (id : Nat) (o : Outcome (Value D))
  /-- Requests cancellation and skips the slot if it is still queued. -/
  | cancelSlot (id : Nat)
  /-- Cancels a slot on behalf of a later write. -/
  | supersede (victim writer : Nat)
  /-- Cancels the pending slots; `count` of the `total` have been moved to cancelled so far. -/
  | cancelEach (pending : List Nat) (total count : Nat)
  /-- Reports the count of the last bulk cancellation. -/
  | reportTally
  /-- Vacates a slot that is still queued. -/
  | skip (id : Nat)
  | openVacancy (id : Nat)
  /-- Vacates a slot whose task is over. -/
  | vacate (id : Nat)
  | dispatch (id : Nat)
  /-- Makes a gate that dispatches a slot after all of `dependencies` have vacated. -/
  | chain (id : Nat) (dependencies : List Nat)
  /-- Has a gate released when a slot vacates. -/
  | await (gate dependency : Nat)
  | release (gate : Nat)
  /-- Ends or drops a slot's task. -/
  | endTask (id : Nat)
  /-- A submission returns, so that the client can use the future. -/
  | handOver (id : Nat)
  | park (id : Nat) (body : Body D)
  /-- A callback returns. -/
  | finish (id : Nat) (result : Result D)
  deriving Repr

/-- A manager, its runtime and its clients. -/
structure Machine (D : Type) where
  entries : List (Entry D) := []
  admission : Admission := {}
  gates : List Gate := []
  /-- The bound on concurrent reads, if there is one. -/
  permits : Option Permits := none
  /-- The tasks that the runtime is to poll. -/
  ready : Agenda := {}
  /-- Whether the runtime is there. -/
  live : Bool := true
  /-- A number that callbacks share. -/
  register : Int64 := 0
  /-- How many requests the last bulk cancellation moved to cancelled. -/
  tally : Nat := 0
  work : List (Work D) := []
  events : List (Event D) := []
  trace : List TraceEvent := []
  deriving Repr

/-- What becomes of a job when its task is over: one that has not begun never will. -/
def Callback.close {D : Type} : Callback D → Callback D
  | .held _ | .offered _ => .dropped
  | .latched _ => .spent
  | c => c

namespace Entry

variable {D : Type}

/-- An entry whose slot is queued with a job. -/
def queued (kind : Kind) (seq : UInt64) (job : Job D) : Entry D where
  kind := kind
  seq := seq
  request := {}
  stage := .queued
  vacancy := .empty
  task := .unspawned
  callback := .held job
  released := false
  future := .withheld

/-- An entry for a submission that came too late: its callback is given up. -/
def refused (kind : Kind) : Entry D where
  kind := kind
  seq := 0
  request := {}
  stage := .refused
  vacancy := .empty
  task := .unspawned
  callback := .dropped
  released := false
  future := .withheld

/-- Whether the slot has been vacated. -/
def isVacated (e : Entry D) : Bool := e.vacancy.isSettled

/-- Whether the task exists and is not over. -/
def isAlive (e : Entry D) : Bool :=
  match e.task with
  | .unspawned | .ended => false
  | _ => true

end Entry

namespace Machine

variable {D : Type}

instance : Inhabited (Machine D) := ⟨{}⟩

/-- Puts work items in front of the others. -/
def push (items : List (Work D)) (s : Machine D) : Machine D := { s with work := items ++ s.work }

/-- Records an event. -/
def emit (e : Event D) (s : Machine D) : Machine D := { s with events := e :: s.events }

/-- Records a log event. -/
def note (t : TraceEvent) (s : Machine D) : Machine D := { s with trace := t :: s.trace }

/-- Replaces an entry. -/
def put (id : Nat) (e : Entry D) (s : Machine D) : Machine D :=
  { s with entries := s.entries.set id e }

/-- Makes a task ready. -/
def wakeTask (id : Nat) (s : Machine D) : Machine D := { s with ready := s.ready.add id }

/-- Whether a request's slot has been vacated. -/
def vacated (s : Machine D) (id : Nat) : Bool :=
  match s.entries[id]? with
  | some e => e.isVacated
  | none => false

/-- The entry of a request whose future a client holds. -/
def held? (s : Machine D) (id : Nat) : Option (Entry D) :=
  s.entries[id]?.filter fun e => e.future == .held

end Machine

end RequestScheduler
