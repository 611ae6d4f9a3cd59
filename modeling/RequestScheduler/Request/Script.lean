import RequestScheduler.Request.Pair

/-!
# Scripts for a request

A script acts on both halves of one request. Waiting for something that is pending is refused, and
so is every use of a future that is gone. A future may be joined by another thread; the outcome is
then collected from that thread.
-/

namespace RequestScheduler.Pair

variable {D : Type}

/-- A step of a script. -/
inductive Step (D : Type) where
  | act (a : Act D)
  | join
  /-- Hands the future to a thread that joins it. -/
  | joinThread
  /-- Asks that thread for the outcome. -/
  | collect
  | drop
  | wait
  | waitTimeout
  | poll (waker : Nat)
  /-- An action that a settler cannot take. -/
  | invalid
  deriving Repr

/-- What a step reports: its answer, its events, the status of the future if it is there, the
status of the settler's request, and whether its indicator is set. -/
structure Report (D : Type) where
  answer : Answer D
  events : List (Event D)
  future : Option Status
  settler : Status
  tripped : Bool

namespace State

/-- Hands the outcome of the future out. -/
def takeOutcome (s : State D) : State D :=
  match s.ready with
  | none => { s with request := s.request.take.2 }
  | some r => { s with ready := some r.take.2 }

/-- The outcome of a settled future, or the panic of a future whose outcome was handed out. -/
def outcomeOr (message : String) (s : State D) : Answer D :=
  match s.future.take.1 with
  | some o => .outcome o
  | none => .panic message

/-- Has a waker woken when the future settles. -/
def await (waker : Nat) (s : State D) : State D := { s with request := s.request.await waker }

/-- Carries out a step. -/
def perform (step : Step D) (s : State D) : Answer D × State D :=
  let onFuture (f : Answer D × State D) : Answer D × State D :=
    if s.held then f else (.refusal .noFuture, s)
  let gone : State D := { s with held := false }
  match step with
  | .act a => (s.answer .noFuture a, (s.act a []).drain)
  | .join => onFuture <|
    if s.future.isSettled then (s.outcomeOr joinedTakenMessage, gone.takeOutcome)
    else (.refusal .wouldBlock, s)
  | .joinThread => onFuture (.nothing, { gone with joining := true })
  | .collect =>
    if s.joining then
      if s.request.isSettled then
        (s.outcomeOr joinedTakenMessage, { s with joining := false }.takeOutcome)
      else (.refusal .wouldBlock, s)
    else (.refusal .noFuture, s)
  | .drop => onFuture (.nothing, gone)
  | .wait => onFuture (if s.future.isSettled then .flag true else .refusal .wouldBlock, s)
  | .waitTimeout => onFuture (.flag s.future.isSettled, s)
  | .poll waker => onFuture <|
    if s.future.isSettled then (s.outcomeOr polledTakenMessage, s.takeOutcome)
    else (.pending, s.await waker)
  | .invalid => (.refusal .badStep, s)

/-- Carries out a step and reports what it brought about. -/
def step (st : Step D) (s : State D) : Report D × State D :=
  let (answer, t) := s.perform st
  ({ answer
     events := newEvents s t
     future := if t.held then some t.future.status else none
     settler := t.request.status
     tripped := t.request.tripped }, t)

/-- Carries out a script. -/
def run : List (Step D) → State D → List (Report D) × State D
  | [], s => ([], s)
  | st :: rest, s =>
    let (report, s) := s.step st
    let (reports, s) := s.run rest
    (report :: reports, s)

end State

end RequestScheduler.Pair
