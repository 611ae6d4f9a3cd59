import RequestScheduler.Invocation
import RequestScheduler.Machine.Exec

/-!
# Turns of the runtime and of callbacks

Between work, two things can happen by themselves. The runtime polls a task that is ready: a task
first takes its permit, if its slot needs one, then starts its job, and later publishes what the
callback returned. And a callback that was handed to the pool begins, or a parked one goes on.
-/

namespace RequestScheduler

namespace Machine

variable {D : Type}

/-- The job of a task that holds its permit is started. -/
def startJob (id : Nat) (s : Machine D) : Machine D :=
  match s.entries[id]? with
  | none => s
  | some e =>
    match e.callback with
    | .held (.callback body) =>
      (s.note (.spawnBlocking e.kind.taskClass)).put id
        { e with task := .working, callback := .offered body }
    | .held (.immediate outcome) =>
      ((s.emit (.job id e.request.tripped)).put id
        { e with task := .working, callback := .spent }).push
          ((outcome.map (Work.settle id)).toList ++ [.endTask id])
    | .held (.latched value) =>
      let s := s.emit (.job id e.request.tripped)
      if e.released then
        ((s.emit (.woke id e.request.tripped)).put id
          { e with task := .working, callback := .spent }).push
            [.settle id (.ok value), .endTask id]
      else s.put id { e with task := .working, callback := .latched value }
    | _ => s.put id { e with task := .working }

/-- A task that finds the permits closed: it cancels its request and ends. A permit that it was
handed goes back. -/
def closeOut (id : Nat) (s : Machine D) : Machine D :=
  match s.entries[id]? with
  | none => s
  | some e =>
    let s := s.put id { e with task := .ended }
    let s := if e.task = .handed then s.putPermit else s
    s.cancelThen id [.endTask id]

/-- Logs an outcome that is about to be published, if it is a panic. -/
def panicNote (kind : Kind) (o : Outcome (Value D)) : List (Work D) :=
  (panicTrace kind o).map .note

/-- A task goes on with its job. -/
def continueJob (id : Nat) (s : Machine D) : Machine D :=
  match s.entries[id]? with
  | none => s
  | some e =>
    match e.callback with
    | .returned outcome =>
      (s.put id { e with callback := .spent }).push
        (panicNote e.kind outcome ++ [.settle id outcome, .endTask id])
    | .latched value =>
      if e.released then
        ((s.emit (.woke id e.request.tripped)).put id { e with callback := .spent }).push
          [.settle id (.ok value), .endTask id]
      else s
    | _ => s

/-- Polls a task. -/
def poll (id : Nat) (s : Machine D) : Machine D :=
  match s.entries[id]? with
  | none => s
  | some e =>
    match e.task with
    | .unspawned | .ended => s
    | .fresh =>
      match e.kind, s.permits with
      | .read, some p =>
        match p.acquire id with
        | (.closed, _) => s.closeOut id
        | (.granted, p) => { s with permits := some p }.startJob id
        | (.queued, p) => { s with permits := some p }.put id { e with task := .queueing }
      | _, _ => s.startJob id
    | .queueing => if (s.permits.map (·.closed)).getD true then s.closeOut id else s
    | .handed => if (s.permits.map (·.closed)).getD true then s.closeOut id else s.startJob id
    | .working => s.continueJob id

/-- Polls the task that the runtime has next on its agenda. -/
def pollNext? (s : Machine D) : Option (Machine D) :=
  match s.ready.next? with
  | none => none
  | some (id, rest) => some (poll id { s with ready := rest })

/-- The runtime polls no task at the moment. -/
def pause (s : Machine D) : Machine D := { s with ready := s.ready.pause }

/-- Whether a callback can begin or go on by itself. -/
def mayAdvance (e : Entry D) : Bool :=
  match e.callback with
  | .offered _ => true
  | .parked body => e.released || (body.mode == .cooperative && e.request.tripped)
  | _ => false

/-- A callback begins, or goes on after it was parked. -/
def advance (id : Nat) (s : Machine D) : Machine D :=
  match s.entries[id]? with
  | none => s
  | some e =>
    match e.callback with
    | .offered body =>
      ((s.pause.emit (.start id e.request.tripped)).put id { e with callback := .running }).push
        (body.pre.map .perform ++
          match body.mode with
          | .straight => body.post.map .perform ++ [.finish id body.result]
          | .hold | .cooperative => [.park id body])
    | .parked body =>
      ((s.pause.emit (.resume id e.request.tripped)).put id { e with callback := .running }).push
        (body.post.map .perform ++ [.finish id body.result])
    | _ => s

/-- The callback of the smallest identifier that can advance does so. -/
def advanceNext? (s : Machine D) : Option (Machine D) :=
  (s.entries.findIdx? mayAdvance).map fun id => s.advance id

/-- What happens next by itself: work first, then the runtime, then a callback. -/
def next? (s : Machine D) : Option (Machine D) :=
  s.step? <|> s.pollNext? <|> s.advanceNext?

end Machine

end RequestScheduler
