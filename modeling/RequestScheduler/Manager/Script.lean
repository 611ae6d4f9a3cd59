import RequestScheduler.Config
import RequestScheduler.Refusal
import RequestScheduler.Machine.Client

/-!
# Scripts for a manager

A script submits callbacks to a manager and acts on their futures. After every step that is not
marked lazy the machine goes on by itself until nothing more happens. Each step reports its answer,
the events it brought about, and the callbacks that were given up meanwhile.
-/

namespace RequestScheduler.Manager

variable {D : Type}

/-- A step of a script. Requests are named by the order of their submission, from zero. -/
inductive Step (D : Type) where
  | submit (kind : Kind) (body : Body D)
  /-- Releases a parked callback. -/
  | finish (id : Nat)
  | cancel (id : Nat)
  | cancelAll
  | snapshot
  | isShutDown
  | config
  | debug
  | onSettled (id : Nat) (tag : D) (effects : List (Effect D))
  | waitTimeout (id : Nat)
  | join (id : Nat)
  | poll (id waker : Nat)
  | dropFuture (id : Nat)
  | effects (es : List (Effect D))
  /-- Only lets the machine go on. -/
  | pump
  | shutdownBlocking
  | shutdown
  | dropRuntime
  | unknown
  deriving Repr

/-- The answer to a step. -/
inductive Answer (D : Type) where
  | nothing
  | flag (b : Bool)
  | number (n : Nat)
  | text (s : String)
  | pending
  | snapshot (view : Snapshot)
  | config (c : Config)
  | outcome (o : Outcome (Value D))
  | report (r : Machine.ShutdownReport)
  | panic (message : String)
  | refusal (r : Refusal)
  deriving Repr

/-- What a step reports. The events and log events of a runtime's end come in no particular
order; those that follow are kept apart from them. -/
structure Report (D : Type) where
  answer : Answer D
  /-- The events of the runtime's end, if the step ended it. -/
  unordered : List (Event D) := []
  events : List (Event D)
  unorderedTrace : List TraceEvent := []
  trace : List TraceEvent
  /-- The callbacks that were given up during the step. -/
  dropped : List Nat
  /-- The status of every future, and nothing for a future that is gone. -/
  statuses : List (Option Status)
  snapshot : Snapshot

/-- A manager with its configuration. -/
structure State (D : Type) where
  machine : Machine D
  config : Config

namespace State

/-- A manager with this configuration, unless it is refused. -/
def make (config : Config) : Except Config.Refusal (State D) :=
  match config.permits with
  | .error e => .error e
  | .ok permits => .ok { machine := .start permits, config }

/-- Acts on the future of a request, if a client holds it. -/
def onFuture (id : Nat) (f : Entry D → Answer D × Machine D) (s : State D) :
    Answer D × Machine D :=
  match s.machine.held? id with
  | none => (.refusal .noFuture, s.machine)
  | some e => f e

/-- Carries out a step, without what may follow by itself. -/
def perform (step : Step D) (s : State D) : Answer D × Machine D :=
  let m := s.machine
  match step with
  | .submit kind body => (.number m.entries.length, m.submitNow kind body)
  | .finish id =>
    match m.entries[id]?.map Entry.callback with
    | some (.parked _) => (.flag true, m.releaseJob id)
    | _ => (.flag false, m)
  | .cancel id => s.onFuture id fun e => (.flag !e.request.isSettled, m.cancelNow id)
  | .cancelAll =>
    let m := m.cancelAllNow
    (.number m.tally, m)
  | .snapshot =>
    let (view, m) := m.snapshot
    (.snapshot view, m)
  | .isShutDown => (.flag m.admission.closed, m)
  | .config => (.config s.config, m)
  | .debug =>
    let (view, m) := m.snapshot
    (.text ("RequestManager \x7b config: " ++ s.config.text ++ ", snapshot: " ++ view.text ++
      " \x7d"), m)
  | .onSettled id tag effects => s.onFuture id fun _ => (.nothing, m.onSettledNow id tag effects)
  | .waitTimeout id => s.onFuture id fun e => (.flag e.request.isSettled, m)
  | .join id => s.onFuture id fun e =>
    if e.request.isSettled then
      match e.request.take.1 with
      | some o => (.outcome o, (m.takeOutcome id).dropFuture id)
      | none => (.panic joinedTakenMessage, m.dropFuture id)
    else (.refusal .wouldBlock, m)
  | .poll id waker => s.onFuture id fun e =>
    if e.request.isSettled then
      match e.request.take.1 with
      | some o => (.outcome o, m.takeOutcome id)
      | none => (.panic polledTakenMessage, m)
    else (.pending, m.awaitRequest id waker)
  | .dropFuture id =>
    match m.held? id with
    | none => (.flag false, m)
    | some _ => (.flag true, m.dropFuture id)
  | .effects es => (.nothing, m.effects es)
  | .pump => (.nothing, m)
  | .shutdownBlocking =>
    let (ids, m) := m.beginShutdown
    let (report, m) := m.finishShutdown ids s.config.shutdownTimeoutMs
    (.report report, m)
  | .shutdown =>
    if m.live then
      let (ids, m) := m.beginShutdown
      let (report, m) := m.pump.finishShutdown ids s.config.shutdownTimeoutMs
      (.report report, m)
    else (.refusal .noRuntime, m)
  | .dropRuntime => (.flag m.live, if m.live then m.dropRuntime else m)
  | .unknown => (.refusal .badStep, m)

/-- Whether a request's callback was given up. -/
def isDropped (m : Machine D) (id : Nat) : Bool :=
  match m.entries[id]?.map Entry.callback with
  | some .dropped => true
  | _ => false

/-- The status of a future, if it is there. -/
def futureStatus (e : Entry D) : Option Status :=
  match e.future with
  | .gone => none
  | _ => some e.request.status

/-- Carries out a step and what follows by itself, unless the step is lazy. -/
def step (step : Step D) (isLazy : Bool) (s : State D) : Report D × State D :=
  let before := s.machine
  let (answer, done) := s.perform step
  let after := if isLazy then done else done.pump
  let dropped := (List.range after.entries.length).filter fun id =>
    isDropped after id && !isDropped before id
  let statuses := after.entries.map futureStatus
  let view := after.snapshot.1
  let report : Report D := match step with
    | .dropRuntime =>
      { answer
        unordered := Machine.newEvents before done
        events := Machine.newEvents done after
        unorderedTrace := Machine.newTrace before done
        trace := Machine.newTrace done after
        dropped, statuses
        snapshot := view }
    | _ =>
      { answer
        events := Machine.newEvents before after
        trace := Machine.newTrace before after
        dropped, statuses
        snapshot := view }
  (report, { s with machine := after })

/-- Carries out a script. -/
def run : List (Step D × Bool) → State D → List (Report D) × State D
  | [], s => ([], s)
  | (st, isLazy) :: rest, s =>
    let (report, s) := s.step st isLazy
    let (reports, s) := s.run rest
    (report :: reports, s)

end State

end RequestScheduler.Manager
