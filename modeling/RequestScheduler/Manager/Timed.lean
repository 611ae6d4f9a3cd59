import RequestScheduler.Manager.Script

/-!
# Scripts for a manager with a pool of threads

Here callbacks run on threads of their own while the client goes on, and a client can wait for them.
Everything that can happen without the passing of time happens at once; time passes only while the
client waits, and then up to the next moment at which a sleeping callback wakes. A callback pauses
before it acts: it sleeps, it waits for its cancellation, or it meets other callbacks.
-/

namespace RequestScheduler.Timed

variable {D : Type}

/-- What a callback does before it acts. -/
inductive Pause where
  | none
  /-- Waits for its cancellation. -/
  | cancellation
  /-- Waits until so many of the callbacks that meet have begun. -/
  | meeting (count : Nat)
  | sleep (milliseconds : Nat)
  deriving DecidableEq, Repr, Inhabited

/-- A callback that pauses, adds to the register, and gives a result. -/
structure Errand (D : Type) where
  pause : Pause
  add : Int64
  result : Result D
  deriving Repr

/-- The callback of an errand. -/
def Errand.body (e : Errand D) : Body D where
  mode := match e.pause with
    | .none => .straight
    | .cancellation => .cooperative
    | .meeting _ | .sleep _ => .hold
  pre := []
  post := [.add e.add]
  result := e.result

/-- A step of a script. Requests are named by the order of their submission, from zero. -/
inductive Step (D : Type) where
  | submit (kind : Kind) (errand : Errand D)
  /-- Waits for an outcome and takes it. -/
  | join (id : Nat)
  /-- Waits until a request is settled. -/
  | wait (id : Nat)
  /-- Waits until so many callbacks have begun. -/
  | waitStarted (count : Nat)
  | cancel (id : Nat)
  | cancelAll
  /-- Waits until every slot is vacated. -/
  | drain
  | shutdown
  | isShutDown
  | register
  | unknown
  deriving Repr

/-- The answer to a step. -/
inductive Answer (D : Type) where
  | flag (b : Bool)
  | number (n : Nat)
  | register (n : Int64)
  | status (s : Status)
  | snapshot (view : Snapshot)
  | outcome (o : Outcome (Value D))
  | report (r : Machine.ShutdownReport)
  | refusal (r : Refusal)
  deriving Repr

/-- A manager with its configuration and a clock. -/
structure State (D : Type) where
  machine : Machine D
  config : Config
  /-- Milliseconds since the start. -/
  clock : Nat := 0
  /-- How each callback pauses, and when it wakes if it sleeps already. -/
  pauses : List (Pause × Option Nat) := []

namespace State

/-- A manager with this configuration, unless it is refused. -/
def make (config : Config) : Except Config.Refusal (State D) :=
  (Manager.State.make config).map fun s => { machine := s.machine, config }

/-- Whether a callback is parked and was not released yet. -/
def isParked (s : State D) (id : Nat) : Bool :=
  match s.machine.entries[id]? with
  | none => false
  | some e =>
    match e.callback with
    | .parked _ => !e.released
    | _ => false

/-- The callbacks that have begun. -/
def begun (s : State D) : List Nat :=
  s.machine.events.filterMap fun
    | .start id _ => some id
    | _ => none

/-- How many of the callbacks that meet have begun. -/
def met (s : State D) : Nat :=
  (s.begun.filter fun id =>
    match s.pauses[id]? with
    | some (.meeting _, _) => true
    | _ => false).length

/-- A callback that may go on at this moment because enough others have begun. -/
def gathered? (s : State D) : Option Nat :=
  (List.range s.pauses.length).find? fun id =>
    s.isParked id &&
      match s.pauses[id]? with
      | some (.meeting count, _) => decide (count ≤ s.met)
      | _ => false

/-- The callback that wakes first, with the moment. -/
def sleeper? (s : State D) : Option (Nat × Nat) :=
  (List.range s.pauses.length).foldl (fun first id =>
    match s.pauses[id]? with
    | some (_, some moment) =>
      if s.isParked id then
        match first with
        | some (earliest, _) => if moment < earliest then some (moment, id) else first
        | none => some (moment, id)
      else first
    | _ => first) none

/-- Lets everything happen that takes no time. Callbacks that have begun to sleep are given the
moment at which they wake. -/
def pump (s : State D) : State D :=
  let s := { s with machine := s.machine.pump }
  { s with
    pauses := (List.range s.pauses.length).zipWith (fun id p =>
      match p with
      | (.sleep ms, none) => (.sleep ms, if s.isParked id then some (s.clock + ms) else none)
      | p => p) s.pauses }

/-- Lets everything happen that takes no time, meetings included. Every turn releases a callback,
so `turns` need not exceed the number of callbacks. -/
def gather (turns : Nat) (s : State D) : State D :=
  let s := s.pump
  match turns, s.gathered? with
  | turns + 1, some id => gather turns { s with machine := s.machine.releaseJob id }
  | _, _ => s

/-- Lets everything happen that takes no time. -/
def settleDown (s : State D) : State D := s.gather s.pauses.length

/-- Lets time pass until `done`, or until `limit` if there is one. Every turn wakes a callback, so
`turns` need not exceed the number of callbacks. -/
def waitTurns (limit : Option Nat) (done : State D → Bool) (turns : Nat) (s : State D) :
    State D :=
  if done s then s
  else
    let expired : State D := { s with clock := limit.getD s.clock }
    match turns, s.sleeper? with
    | turns + 1, some (moment, id) =>
      if limit.any (· < moment) then expired
      else waitTurns limit done turns
        { s with clock := moment, machine := s.machine.releaseJob id }.settleDown
    | _, _ => expired

/-- Waits until `done`, or until `limit` if there is one. -/
def waitFor (limit : Option Nat) (done : State D → Bool) (s : State D) : State D :=
  s.waitTurns limit done s.pauses.length

/-- Whether a request is settled. -/
def isSettled (id : Nat) (s : State D) : Bool :=
  match s.machine.entries[id]? with
  | none => true
  | some e => e.request.isSettled

/-- Carries out a step that asks the machine for something, and what follows at once. -/
def acting (answer : Answer D) (machine : Machine D) (s : State D) : Answer D × State D :=
  (answer, { s with machine }.settleDown)

/-- Carries out a step. -/
def perform (step : Step D) (s : State D) : Answer D × State D :=
  let m := s.machine
  let onFuture (id : Nat) (f : Unit → Answer D × State D) : Answer D × State D :=
    match m.held? id with
    | none => (.refusal .noFuture, s)
    | some _ => f ()
  match step with
  | .submit kind errand =>
    { s with pauses := s.pauses ++ [(errand.pause, none)] }.acting (.number m.entries.length)
      (m.submitNow kind errand.body)
  | .join id => onFuture id fun _ =>
    let s := s.waitFor none (isSettled id)
    match (s.machine.held? id).bind fun e => e.request.take.1 with
    | none => (.refusal .wouldBlock, s)
    | some o => (.outcome o, { s with machine := (s.machine.takeOutcome id).dropFuture id })
  | .wait id => onFuture id fun _ =>
    let s := s.waitFor none (isSettled id)
    match s.machine.held? id with
    | none => (.refusal .noFuture, s)
    | some e => (.status e.request.status, s)
  | .waitStarted count =>
    let s := s.waitFor none fun s => decide (count ≤ s.begun.length)
    (.number s.begun.length, s)
  | .cancel id => onFuture id fun _ => s.acting (.flag !s.isSettled id) (m.cancelNow id)
  | .cancelAll =>
    let m := m.cancelAllNow
    s.acting (.number m.tally) m
  | .drain =>
    let s := s.waitFor none fun s =>
      let view := s.machine.snapshot.1
      view.outstandingReads == 0 && view.outstandingWrites == 0
    (.snapshot s.machine.snapshot.1, s)
  | .shutdown =>
    let (ids, m) := m.beginShutdown
    let s := { s with machine := m }.settleDown
    let s := s.waitFor (some (s.clock + s.config.shutdownTimeoutMs.toNat)) fun s =>
      ids.all s.machine.vacated
    let (report, m) := s.machine.finishShutdown ids s.config.shutdownTimeoutMs
    s.acting (.report report) m
  | .isShutDown => (.flag m.admission.closed, s)
  | .register => (.register m.register, s)
  | .unknown => (.refusal .badStep, s)

/-- Carries out a script. -/
def run : List (Step D) → State D → List (Answer D) × State D
  | [], s => ([], s)
  | st :: rest, s =>
    let (answer, s) := s.perform st
    let (answers, s) := s.run rest
    (answer :: answers, s)

end State

end RequestScheduler.Timed
