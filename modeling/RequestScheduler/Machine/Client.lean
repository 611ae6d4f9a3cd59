import RequestScheduler.Machine.Run

/-!
# What clients do to a machine

Every operation of a client is carried out to its end, with all that it sets off: the continuations
that run and the submissions nested in them. Tasks and callbacks do not go on meanwhile.
-/

namespace RequestScheduler

namespace Machine

variable {D : Type}

/-- A manager that nothing was submitted to. -/
def start (permits : Option Permits) : Machine D := { permits }

/-- Performs client code. -/
def effects (es : List (Effect D)) (s : Machine D) : Machine D :=
  (s.push (es.map .perform)).drain

/-- Submits a callback. -/
def submitNow (kind : Kind) (body : Body D) (s : Machine D) : Machine D :=
  (s.submit kind body []).drain

/-- Cancels a request by its future. -/
def cancelNow (id : Nat) (s : Machine D) : Machine D := (s.cancelThen id []).drain

/-- Cancels every outstanding request. The tally then holds how many this settled. -/
def cancelAllNow (s : Machine D) : Machine D := (s.cancelAll []).drain

/-- Registers a continuation on a request. -/
def onSettledNow (id : Nat) (tag : D) (es : List (Effect D)) (s : Machine D) : Machine D :=
  (s.onSettled id tag es []).drain

/-- Changes the entry of a request, if it is there. -/
def modify (id : Nat) (f : Entry D → Entry D) (s : Machine D) : Machine D :=
  match s.entries[id]? with
  | none => s
  | some e => s.put id (f e)

/-- Sets the flag of a request's indicator and nothing else. -/
def tripNow (id : Nat) (s : Machine D) : Machine D := s.trip id

/-- Has a waker woken when a request settles. -/
def awaitRequest (id waker : Nat) (s : Machine D) : Machine D :=
  s.modify id fun e => { e with request := e.request.await waker }

/-- Hands the outcome of a request out. -/
def takeOutcome (id : Nat) (s : Machine D) : Machine D :=
  s.modify id fun e => { e with request := e.request.take.2 }

/-- The client gives a future up. -/
def dropFuture (id : Nat) (s : Machine D) : Machine D :=
  s.modify id fun e => { e with future := .gone }

/-- Lets a parked callback, or a waiting job, go on. -/
def releaseJob (id : Nat) (s : Machine D) : Machine D :=
  match s.entries[id]? with
  | none => s
  | some e =>
    let s := s.put id { e with released := true }
    match e.callback with
    | .latched _ => if e.released then s else s.wakeTask id
    | _ => s

/-- Closes the pool of permits: every task that waits for one is woken. -/
def closePermits (s : Machine D) : Machine D :=
  match s.permits with
  | none => s
  | some p => { s with permits := some p.close.2, ready := s.ready.addAll p.close.1 }

/-- The first half of a shutdown: admission is closed, and every outstanding request is cancelled.
The answer lists the requests whose slots the shutdown waits for. -/
def beginShutdown (s : Machine D) : List Nat × Machine D :=
  let (ids, admission) := s.admission.close s.vacated
  let s := { s with admission }.closePermits.note (.shutdown ids.length)
  (ids, (s.push (ids.map .cancelSlot)).drain)

/-- How a shutdown ended. -/
structure ShutdownReport where
  /-- The slots that were still occupied when the wait was over. -/
  abandoned : Nat
  deriving DecidableEq, Repr

/-- Whether every slot vacated in time. -/
def ShutdownReport.completed (r : ShutdownReport) : Bool := r.abandoned == 0

/-- The second half of a shutdown: counts the slots that are still occupied. -/
def finishShutdown (ids : List Nat) (timeoutMs : UInt64) (s : Machine D) :
    ShutdownReport × Machine D :=
  let abandoned := (ids.filter fun id => !s.vacated id).length
  ({ abandoned },
    s.note (if abandoned > 0 then .shutdownTimeout abandoned timeoutMs
      else .shutdownComplete ids.length))

/-- The tasks that exist and are not over. -/
def aliveTasks (s : Machine D) : List Nat :=
  (List.range s.entries.length).filter fun id => (s.entries[id]?.map Entry.isAlive).getD false

/-- The runtime goes away, and its tasks are dropped in this order. -/
def dropTasks (tasks : List Nat) (s : Machine D) : Machine D :=
  ({ s with live := false, ready := {} }.push (tasks.map .endTask)).drain

/-- The runtime goes away: every task is dropped. -/
def dropRuntime (s : Machine D) : Machine D := s.dropTasks s.aliveTasks

/-- Makes a slot with a job of its own that no manager admitted yet. Its settlement and its
vacancy are reported. -/
def newSlot (kind : Kind) (job : Job D) (s : Machine D) : Machine D :=
  let id := s.entries.length
  let (seq, admission) := s.admission.nextSeq
  let e := Entry.queued kind seq job
  { s with
    admission
    entries := s.entries ++ [{ e with
      request := e.request.register (.announce (.settled id))
      vacancy := e.vacancy.register (.announce (.vacated id))
      future := .held }] }

/-- Dispatches a slot directly. -/
def dispatchNow (id : Nat) (s : Machine D) : Machine D := (s.push [.dispatch id]).drain

/-- Cancels a slot. -/
def cancelSlotNow (id : Nat) (s : Machine D) : Machine D := (s.push [.cancelSlot id]).drain

/-- Has a slot dispatched when the given slots have vacated. -/
def chainNow (id : Nat) (dependencies : List Nat) (s : Machine D) : Machine D :=
  (s.push [.chain id dependencies]).drain

/-- The events that `after` has beyond `before`, in their order. -/
def newEvents (before after : Machine D) : List (Event D) :=
  (after.events.take (after.events.length - before.events.length)).reverse

/-- The log events that `after` has beyond `before`, in their order. -/
def newTrace (before after : Machine D) : List TraceEvent :=
  (after.trace.take (after.trace.length - before.trace.length)).reverse

/-- Lets the runtime poll until no task is ready, and no callback advance. -/
def turn (s : Machine D) : Machine D :=
  match h : s.step? <|> s.pollNext? with
  | none => s.pause
  | some t =>
    have : t.Below s := by
      cases h₁ : s.step? with
      | some u =>
        rw [h₁] at h
        obtain rfl := Option.some.inj h
        exact step?_below h₁
      | none =>
        rw [h₁] at h
        exact pollNext?_below h
    t.turn
termination_by (s.text, s.load)
decreasing_by exact this.lex

end Machine

end RequestScheduler
