import RequestScheduler.Refusal
import RequestScheduler.Machine.Client

/-!
# Scripts for slots

A script makes slots with jobs of their own and drives the admission record, the gates and the
runtime by hand: what the record plans is only reported, and tasks are polled by the step `run`
alone. Slots are named by the order in which they are made, from zero.
-/

namespace RequestScheduler.Slot

variable {D : Type}

/-- A step of a script. -/
inductive Step (D : Type) where
  | slot (kind : Kind) (job : Job D)
  | admitRead (slot : Nat)
  | admitWrite (slot : Nat)
  | dispatch (slot : Nat)
  | cancel (slot : Nat)
  | futureCancel (slot : Nat)
  /-- Sets the flag of the slot's indicator. -/
  | trip (slot : Nat)
  | release (slot : Nat)
  /-- Dispatches a slot when others have vacated. -/
  | chain (slot : Nat) (on : List Nat)
  | nextSeq
  | reject
  | isClosed
  | outstanding
  | close
  | snapshot
  | closePermits
  | available
  | run
  | dropRuntime
  | unknown
  deriving Repr

/-- The answer to a step. -/
inductive Answer where
  | nothing
  | flag (b : Bool)
  | number (n : Nat)
  | text (s : String)
  /-- A slot was made. -/
  | made (seq : UInt64) (kind : Kind)
  /-- A read is to be dispatched. -/
  | dispatch
  /-- A read is to wait for a write, which may have vacated. -/
  | after (vacated : Bool)
  /-- A write is to cancel these slots and to wait for slots, some of which may have vacated. -/
  | plan (cancel : List (UInt64 × Kind)) (waitFor : List Bool)
  | slots (l : List (UInt64 × Kind))
  | refusal (r : Refusal)
  deriving Repr

/-- What a step reports. The events and log events of a runtime's end come in no particular
order. -/
structure Report (D : Type) where
  answer : Answer
  /-- Whether the events come in no particular order. -/
  isUnordered : Bool
  events : List (Event D)
  trace : List TraceEvent
  statuses : List Status
  vacated : List Bool
  tripped : List Bool

/-- Acts on a slot, if it is there. -/
def onSlot (id : Nat) (s : Machine D) (f : Entry D → Answer × Machine D) : Answer × Machine D :=
  match s.entries[id]? with
  | none => (.refusal .badStep, s)
  | some e => f e

/-- The sequence numbers and kinds of slots. -/
def describe (s : Machine D) (ids : List Nat) : List (UInt64 × Kind) :=
  ids.filterMap fun id => s.entries[id]?.map fun e => (e.seq, e.kind)

/-- Carries out a step. -/
def perform (step : Step D) (s : Machine D) : Answer × Machine D :=
  match step with
  | .slot kind job => (.made s.admission.nextSeq.1 kind, s.newSlot kind job)
  | .admitRead id => onSlot id s fun _ =>
    let (plan, admission) := s.admission.admitRead s.vacated id
    match plan with
    | .dispatch => (.dispatch, { s with admission })
    | .after write => (.after (s.vacated write), { s with admission })
  | .admitWrite id => onSlot id s fun _ =>
    let (plan, admission) := s.admission.admitWrite s.vacated id
    (.plan (describe s plan.cancel) (plan.waitFor.map s.vacated), { s with admission })
  | .dispatch id => onSlot id s fun _ => (.nothing, s.dispatchNow id)
  | .cancel id => onSlot id s fun e => (.flag !e.request.isSettled, s.cancelSlotNow id)
  | .futureCancel id => onSlot id s fun e => (.flag !e.request.isSettled, s.cancelNow id)
  | .trip id => onSlot id s fun e => (.flag !e.request.tripped, s.tripNow id)
  | .release id => onSlot id s fun e => (.flag !e.released, s.releaseJob id)
  | .chain id on =>
    onSlot id s fun _ =>
      if on.all (· < s.entries.length) then (.nothing, s.chainNow id on)
      else (.refusal .badStep, s)
  | .nextSeq =>
    let (seq, admission) := s.admission.nextSeq
    (.number seq.toNat, { s with admission })
  | .reject => (.nothing, { s with admission := s.admission.reject })
  | .isClosed => (.flag s.admission.closed, s)
  | .outstanding =>
    let (ids, s) := s.outstanding
    (.slots (describe s ids), s)
  | .close =>
    let (ids, admission) := s.admission.close s.vacated
    (.slots (describe s ids), { s with admission })
  | .snapshot =>
    let (view, s) := s.snapshot
    (.text view.text, s)
  | .closePermits =>
    match s.permits with
    | none => (.nothing, s)
    | some _ => (.flag true, s.closePermits)
  | .available =>
    match s.permits with
    | none => (.nothing, s)
    | some p => (.number p.available, s)
  | .run =>
    if s.live then
      let s := s.turn
      (.number (s.entries.filter Entry.isAlive).length, s)
    else (.refusal .noRuntime, s)
  | .dropRuntime => (.nothing, if s.live then s.dropRuntime else s)
  | .unknown => (.refusal .badStep, s)

/-- Carries out a step and reports what it brought about. -/
def step (step : Step D) (before : Machine D) : Report D × Machine D :=
  let (answer, after) := perform step before
  ({ answer
     isUnordered := match step with
       | .dropRuntime => true
       | _ => false
     events := Machine.newEvents before after
     trace := Machine.newTrace before after
     statuses := after.entries.map (·.request.status)
     vacated := after.entries.map Entry.isVacated
     tripped := after.entries.map (·.request.tripped) }, after)

/-- Carries out a script. -/
def run : List (Step D) → Machine D → List (Report D) × Machine D
  | [], s => ([], s)
  | st :: rest, s =>
    let (report, s) := step st s
    let (reports, s) := run rest s
    (report :: reports, s)

/-- The outcome of every slot, if it has one. -/
def outcomes (s : Machine D) : List (Option (Outcome (Value D))) :=
  s.entries.map (·.request.cell.value?)

end RequestScheduler.Slot
