import RequestScheduler.Program
import RequestScheduler.Request
import RequestScheduler.Trace

/-!
# Running a callback for a request

The callback of a request is handed to the pool of blocking threads, and what it gives is
published. If the pool is shut down the callback never runs, and the request is abandoned. This
module describes the job by itself, without a slot around it.
-/

namespace RequestScheduler

/-- The log events of an outcome that a callback gave: only a panic is logged. -/
def panicTrace {V : Type} (kind : Kind) : Outcome V → List TraceEvent
  | .error (.panicked message) => [.panicked kind message]
  | _ => []

/-- What running a callback for a request brought about. -/
structure Invocation (D W K : Type) where
  /-- What the indicator said at each call of the callback. -/
  invoked : List Bool
  request : Request (Value D) W K
  trace : List TraceEvent

/-- Runs a callback with this result for a request, if the pool is live. -/
def invoke {D W K : Type} (kind : Kind) (live : Bool) (result : Result D)
    (r : Request (Value D) W K) : Invocation D W K :=
  let spawned := TraceEvent.spawnBlocking kind.taskClass
  if live then
    let o := result.outcome 0 r.tripped
    { invoked := [r.tripped], request := r.publish o, trace := spawned :: panicTrace kind o }
  else { invoked := [], request := r.abandon, trace := [spawned] }

end RequestScheduler
