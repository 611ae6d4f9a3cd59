import RequestScheduler.Machine.Basic

/-!
# Carrying out work

Every work item is one small step of the machine. A request settles before anything is run that
waits for it; wakers are woken before continuations run; a slot leaves its stage before its
vacancy opens. What an item sets off stands in front of what was to be done already.
-/

namespace RequestScheduler

namespace Machine

variable {D : Type}

/-- Publishes an outcome: wakes the wakers, then leaves the continuations to be run. -/
def settle (id : Nat) (o : Outcome (Value D)) (s : Machine D) : Machine D :=
  match s.entries[id]? with
  | none => s
  | some e =>
    if e.request.isSettled then s
    else
      { s with
        entries := s.entries.set id { e with request := e.request.publish o }
        events := (e.request.cell.wakers.map .wake).reverse ++ s.events
        work := e.request.cell.continuations.map .run ++ s.work }

/-- Sets the flag of a request's indicator. -/
def trip (id : Nat) (s : Machine D) : Machine D :=
  match s.entries[id]? with
  | none => s
  | some e => s.put id { e with request := e.request.trip }

/-- Whether a request is there and not settled. -/
def isPending (s : Machine D) (id : Nat) : Bool :=
  match s.entries[id]? with
  | none => false
  | some e => !e.request.isSettled

/-- Requests the cancellation of a request, and then does `after`. -/
def cancelThen (id : Nat) (after : List (Work D)) (s : Machine D) : Machine D :=
  (s.trip id).push (.settle id (.error .cancelled) :: after)

/-- Opens the vacancy of a slot and then does `after`, unless the vacancy is open already. -/
def openVacancy (id : Nat) (after : List (Work D)) (s : Machine D) : Machine D :=
  match s.entries[id]? with
  | none => s
  | some e =>
    if e.vacancy.isSettled then s
    else
      { s with
        entries := s.entries.set id { e with vacancy := e.vacancy.settle () }
        work := e.vacancy.continuations.map .run ++ after ++ s.work }

/-- Vacates a slot that is still queued: its job is given up. -/
def skip (id : Nat) (s : Machine D) : Machine D :=
  match s.entries[id]? with
  | none => s
  | some e =>
    if e.stage = .queued then
      ((s.put id { e with stage := .vacated, callback := .dropped }).note
        (.skip e.seq e.kind)).push [.openVacancy id]
    else s

/-- Vacates a slot whose task is over. The log event comes after what waited for the slot. -/
def vacate (id : Nat) (s : Machine D) : Machine D :=
  match s.entries[id]? with
  | none => s
  | some e =>
    (s.put id { e with stage := .vacated }).openVacancy id [.note (.vacate e.seq e.kind)]

/-- Hands a slot to the runtime, unless it has left the queue. A slot whose cancellation was
requested vacates instead; without a runtime the task is dropped at once. -/
def dispatch (id : Nat) (s : Machine D) : Machine D :=
  match s.entries[id]? with
  | none => s
  | some e =>
    if e.stage = .queued then
      if e.request.tripped then s.skip id
      else if s.live then
        (((s.note (.dispatch e.seq e.kind)).note (.spawn .control)).put id
          { e with stage := .dispatched, task := .fresh }).wakeTask id
      else
        (((s.note (.dispatch e.seq e.kind)).note (.spawn .control)).put id
          { e with stage := .dispatched, task := .ended }).push [.endTask id]
    else s

/-- Makes a gate. It counts one release more than it has dependencies, so that it cannot fire
before all of them are registered. -/
def chain (id : Nat) (dependencies : List Nat) (s : Machine D) : Machine D :=
  { s with
    gates := s.gates ++ [{ slot := id, remaining := dependencies.length + 1 }]
    work := dependencies.map (Work.await s.gates.length) ++ .release s.gates.length :: s.work }

/-- Has a gate released when a slot vacates: now, if it has. -/
def await (gate dependency : Nat) (s : Machine D) : Machine D :=
  match s.entries[dependency]? with
  | none => s
  | some e =>
    if e.vacancy.isSettled then s.push [.release gate]
    else s.put dependency { e with vacancy := e.vacancy.register (.release gate) }

/-- Releases a gate once. The last release dispatches its slot. -/
def release (gate : Nat) (s : Machine D) : Machine D :=
  match s.gates[gate]? with
  | none => s
  | some g =>
    { s with
      gates := s.gates.set gate { g with remaining := g.remaining - 1 }
      work := if g.remaining = 1 then .dispatch g.slot :: s.work else s.work }

/-- A waiting task is handed a permit. -/
def hand (id : Nat) (s : Machine D) : Machine D :=
  match s.entries[id]? with
  | none => s
  | some e =>
    if e.task = .queueing then (s.put id { e with task := .handed }).wakeTask id else s

/-- A permit comes back and goes to the task that waited longest. -/
def putPermit (s : Machine D) : Machine D :=
  match s.permits with
  | none => s
  | some p =>
    match p.release with
    | (none, p) => { s with permits := some p }
    | (some next, p) => { s with permits := some p }.hand next

/-- Ends a slot's task, or drops it: its permit goes on, a request without an outcome settles as
cancelled, and the slot vacates. -/
def endTask (id : Nat) (s : Machine D) : Machine D :=
  match s.entries[id]? with
  | none => s
  | some e =>
    let s := { s with ready := s.ready.remove id }.put id
      { e with task := .ended, callback := e.callback.close }
    let s := match e.kind, e.task with
      | .read, .working | .read, .handed => s.putPermit
      | .read, .queueing => { s with permits := s.permits.map (Permits.leave id) }
      | _, _ => s
    s.push [.settle id (.error .cancelled), .vacate id]

/-- Submits a job and then does `after`. A closed record refuses it; otherwise the record decides
how it goes on. -/
def submit (kind : Kind) (body : Body D) (after : List (Work D)) (s : Machine D) : Machine D :=
  let id := s.entries.length
  if s.admission.closed then
    { s with
      entries := s.entries ++ [.refused kind]
      admission := s.admission.reject
      trace := .reject kind :: s.trace
      work := .settle id (.error .shutdownRejected) :: .handOver id :: after ++ s.work }
  else
    let (seq, admission) := s.admission.nextSeq
    let entries := s.entries ++ [.queued kind seq (.callback body)]
    match kind with
    | .read =>
      let (plan, admission) := admission.admitRead s.vacated id
      match plan with
      | .dispatch =>
        { s with
          entries, admission
          work := .dispatch id :: .note (.submitRead seq) :: .handOver id :: after ++ s.work }
      | .after write =>
        { s with
          entries, admission
          trace := .queueRead seq :: s.trace
          work := .chain id [write] :: .handOver id :: after ++ s.work }
    | .write =>
      let (plan, admission) := admission.admitWrite s.vacated id
      { s with
        entries, admission
        trace := .submitWrite seq plan.cancel.length plan.waitFor.length :: s.trace
        work := plan.cancel.map (Work.supersede · id) ++
          .chain id plan.waitFor :: .handOver id :: after ++ s.work }

/-- Cancels a slot for a later write, and logs it if that settled the request. -/
def supersede (victim writer : Nat) (s : Machine D) : Machine D :=
  match s.entries[victim]?, s.entries[writer]? with
  | some e, some w =>
    s.cancelThen victim (.skip victim ::
      if e.request.isSettled then [] else [.note (.supersede e.seq e.kind w.seq)])
  | _, _ => s

/-- Cancels the slots in turn and counts those whose requests this settles. -/
def cancelEach (pending : List Nat) (total count : Nat) (s : Machine D) : Machine D :=
  match pending with
  | [] => { s.note (.cancelAll total count) with tally := count }
  | id :: rest =>
    s.cancelThen id
      [.skip id, .cancelEach rest total (if s.isPending id then count + 1 else count)]

/-- Takes stock of the outstanding requests. -/
def outstanding (s : Machine D) : List Nat × Machine D :=
  let (ids, admission) := s.admission.outstanding s.vacated
  (ids, { s with admission })

/-- Takes a view of the admission record. -/
def snapshot (s : Machine D) : Snapshot × Machine D :=
  let (view, admission) := s.admission.snapshot s.vacated
  (view, { s with admission })

/-- Cancels every outstanding request and then does `after`. -/
def cancelAll (after : List (Work D)) (s : Machine D) : Machine D :=
  let (ids, s) := s.outstanding
  s.push (.cancelEach ids ids.length 0 :: after)

/-- Registers a client's continuation and then does `after`. On a settled request it runs now. -/
def onSettled (id : Nat) (tag : D) (effects : List (Effect D)) (after : List (Work D))
    (s : Machine D) : Machine D :=
  match s.entries[id]? with
  | none => s.push after
  | some e =>
    if e.request.isSettled then s.push (.run (.react tag effects) :: after)
    else (s.put id { e with request := e.request.register (.react tag effects) }).push after

/-- Performs one action of a client's code. -/
def perform (e : Effect D) (s : Machine D) : Machine D :=
  match e with
  | .set n => { s with register := n }
  | .add n => { s with register := s.register + n }
  | .mul n => { s with register := s.register * n }
  | .log d => s.emit (.log d)
  | .submit kind mode pre post result =>
    s.submit kind { mode, pre, post, result } [.emit (.submitted s.entries.length)]
  | .cancel id =>
    match s.held? id with
    | none => s.emit (.cancel id none)
    | some e => s.cancelThen id [.emit (.cancel id (some !e.request.isSettled))]
  | .cancelAll => s.cancelAll [.reportTally]
  | .status id => s.emit (.status id ((s.held? id).map (·.request.status)))
  | .snapshot =>
    let (view, s) := s.snapshot
    s.emit (.snapshot view)
  | .onSettled id tag effects =>
    match s.held? id with
    | none => s.emit (.onSettled id false)
    | some _ => s.onSettled id tag effects [.emit (.onSettled id true)]

/-- Runs what a settlement left behind. -/
def run (k : Continuation D) (s : Machine D) : Machine D :=
  match k with
  | .release gate => s.push [.release gate]
  | .react tag effects => (s.emit (.reaction tag)).push (effects.map .perform)
  | .announce e => s.emit e

/-- The future of a submission becomes usable. -/
def handOver (id : Nat) (s : Machine D) : Machine D :=
  match s.entries[id]? with
  | none => s
  | some e => s.put id { e with future := .held }

/-- A callback parks. -/
def park (id : Nat) (body : Body D) (s : Machine D) : Machine D :=
  match s.entries[id]? with
  | none => s
  | some e => s.put id { e with callback := .parked body }

/-- A callback returns: its task is woken to publish the outcome, if it is still there. -/
def finish (id : Nat) (result : Result D) (s : Machine D) : Machine D :=
  match s.entries[id]? with
  | none => s
  | some e =>
    if e.task = .working then
      ((s.emit (.finish id)).put id
        { e with callback := .returned (result.outcome s.register e.request.tripped) }).wakeTask id
    else (s.emit (.finish id)).put id { e with callback := .spent }

/-- Carries out one work item. -/
def exec (w : Work D) (s : Machine D) : Machine D :=
  match w with
  | .perform e => s.perform e
  | .emit e => s.emit e
  | .note t => s.note t
  | .run k => s.run k
  | .settle id o => s.settle id o
  | .cancelSlot id => s.cancelThen id [.skip id]
  | .supersede victim writer => s.supersede victim writer
  | .cancelEach pending total count => s.cancelEach pending total count
  | .reportTally => s.emit (.cancelAll s.tally)
  | .skip id => s.skip id
  | .openVacancy id => s.openVacancy id []
  | .vacate id => s.vacate id
  | .dispatch id => s.dispatch id
  | .chain id dependencies => s.chain id dependencies
  | .await gate dependency => s.await gate dependency
  | .release gate => s.release gate
  | .endTask id => s.endTask id
  | .handOver id => s.handOver id
  | .park id body => s.park id body
  | .finish id result => s.finish id result

/-- The first work item, if there is one, is taken off the list and carried out. -/
def step? (s : Machine D) : Option (Machine D) :=
  match s.work with
  | [] => none
  | w :: rest => some (exec w { s with work := rest })

end Machine

end RequestScheduler
