import RequestScheduler.Indicator
import RequestScheduler.Refusal

/-!
# Scripts for cancellation indicators

A script makes handles and waiters and acts on them. A waiter whose poll was ready is gone. Handles
and waiters are numbered in the order in which they are made; the handle zero is there from the
start.
-/

namespace RequestScheduler.Indicators

/-- A step of a script. -/
inductive Step where
  | new
  | clone (handle : Nat)
  | cancel (handle : Nat)
  /-- Cancels as often as `calls` says, from as many threads. -/
  | race (handle calls : Nat)
  | isCancelled (handle : Nat)
  | wait (handle : Nat)
  | poll (waiter waker : Nat)
  | dropWaiter (waiter : Nat)
  | unknown
  deriving DecidableEq, Repr

/-- The answer to a step. -/
inductive Answer where
  | number (n : Nat)
  | flag (b : Bool)
  | ready
  | pending
  | refusal (r : Refusal)
  deriving DecidableEq, Repr

/-- What a step reports: its answer, the wakers that it woke, and the flags of all handles. -/
structure Report where
  answer : Answer
  woken : List Nat
  flags : List Bool
  deriving DecidableEq, Repr

variable {T : Type} [CancellationToken T]

/-- Carries out a step: the answer, the wakers that it woke, and what it leaves. -/
def perform (step : Step) (s : Indicators T) : Answer × List Nat × Indicators T :=
  let onHandle (handle : Nat) (f : Nat → Indicator T → Answer × List Nat × Indicators T) :=
    match s.ofHandle? handle with
    | none => (.refusal .badStep, [], s)
    | some (i, d) => f i d
  match step with
  | .new => (.number s.handles.length, [], s.make)
  | .clone handle => onHandle handle fun i _ => (.number s.handles.length, [], s.clone i)
  | .cancel handle => onHandle handle fun i d =>
    let (won, woken, d) := d.cancel
    (.flag won, woken, s.put i d)
  | .race handle calls => onHandle handle fun i d =>
    let (winners, woken, d) := d.race calls
    (.number winners, woken, s.put i d)
  | .isCancelled handle => onHandle handle fun _ d => (.flag d.flag, [], s)
  | .wait handle => onHandle handle fun i _ => (.number s.waiters.length, [], s.wait i)
  | .poll waiter waker =>
    match s.ofWaiter? waiter with
    | none => (.refusal .badStep, [], s)
    | some (i, d) =>
      match d.poll waiter waker with
      | (true, _) => (.ready, [], s.forget waiter)
      | (false, d) => (.pending, [], s.put i d)
  | .dropWaiter waiter =>
    match s.ofWaiter? waiter with
    | none => (.flag false, [], s)
    | some (i, d) => (.flag true, [], (s.put i (d.leave waiter)).forget waiter)
  | .unknown => (.refusal .badStep, [], s)

/-- Carries out a step and reports what it brought about. -/
def step (st : Step) (s : Indicators T) : Report × Indicators T :=
  let (answer, woken, s) := s.perform st
  ({ answer, woken, flags := s.flags }, s)

/-- Carries out a script. -/
def run : List Step → Indicators T → List Report × Indicators T
  | [], s => ([], s)
  | st :: rest, s =>
    let (report, s) := s.step st
    let (reports, s) := s.run rest
    (report :: reports, s)

end RequestScheduler.Indicators
