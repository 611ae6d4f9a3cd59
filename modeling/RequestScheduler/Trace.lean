import RequestScheduler.Kind

/-!
# Log events

The scheduler logs what it decides and what it hands to the runtime. Every event has a level, a
name, and named fields that are numbers or texts.
-/

namespace RequestScheduler

/-- A log event. Requests are named by their sequence numbers. -/
inductive TraceEvent where
  | spawn (taskClass : TaskClass)
  | spawnBlocking (taskClass : TaskClass)
  | dispatch (seq : UInt64) (kind : Kind)
  | skip (seq : UInt64) (kind : Kind)
  | vacate (seq : UInt64) (kind : Kind)
  | submitRead (seq : UInt64)
  | queueRead (seq : UInt64)
  | submitWrite (seq : UInt64) (cancels waitsFor : Nat)
  | supersede (seq : UInt64) (kind : Kind) (supersededBy : UInt64)
  | reject (kind : Kind)
  | cancelAll (outstanding cancelled : Nat)
  | panicked (kind : Kind) (message : String)
  | shutdown (outstanding : Nat)
  | shutdownTimeout (abandoned : Nat) (timeoutMs : UInt64)
  | shutdownComplete (drained : Nat)
  deriving DecidableEq, Repr

namespace TraceEvent

/-- The value of a field. -/
inductive Field where
  | number (n : Nat)
  | text (s : String)
  deriving DecidableEq, Repr

def level : TraceEvent → String
  | .spawn .. | .spawnBlocking .. | .dispatch .. | .vacate .. | .submitRead .. | .queueRead ..
  | .submitWrite .. => "TRACE"
  | .skip .. | .supersede .. | .reject .. | .cancelAll .. | .shutdownComplete .. => "DEBUG"
  | .shutdown .. => "INFO"
  | .panicked .. | .shutdownTimeout .. => "WARN"

def name : TraceEvent → String
  | .spawn .. => "worker.spawn_on"
  | .spawnBlocking .. => "worker.spawn_blocking"
  | .dispatch .. => "requests.slot.dispatch"
  | .skip .. => "requests.slot.skip"
  | .vacate .. => "requests.slot.vacate"
  | .submitRead .. => "requests.submit_read"
  | .queueRead .. => "requests.submit_read.queued"
  | .submitWrite .. => "requests.submit_write"
  | .supersede .. => "requests.write.supersede"
  | .reject .. => "requests.submit.rejected"
  | .cancelAll .. => "requests.cancel_all"
  | .panicked .. => "requests.callback.panicked"
  | .shutdown .. => "requests.shutdown"
  | .shutdownTimeout .. => "requests.shutdown.timeout: callbacks ignored cancellation"
  | .shutdownComplete .. => "requests.shutdown.complete"

def fields : TraceEvent → List (String × Field)
  | .spawn c | .spawnBlocking c => [("worker_class", .text c.name)]
  | .dispatch seq kind | .skip seq kind | .vacate seq kind =>
    [("seq", .number seq.toNat), ("kind", .text kind.name)]
  | .submitRead seq | .queueRead seq => [("seq", .number seq.toNat)]
  | .submitWrite seq cancels waitsFor =>
    [("seq", .number seq.toNat), ("cancels", .number cancels), ("waits_for", .number waitsFor)]
  | .supersede seq kind supersededBy =>
    [("seq", .number seq.toNat), ("kind", .text kind.name),
      ("superseded_by", .number supersededBy.toNat)]
  | .reject kind => [("kind", .text kind.name)]
  | .cancelAll outstanding cancelled =>
    [("outstanding", .number outstanding), ("cancelled", .number cancelled)]
  | .panicked kind message => [("kind", .text kind.name), ("panic", .text message)]
  | .shutdown outstanding => [("outstanding", .number outstanding)]
  | .shutdownTimeout abandoned timeoutMs =>
    [("abandoned", .number abandoned), ("timeout_ms", .number timeoutMs.toNat)]
  | .shutdownComplete drained => [("drained", .number drained)]

end TraceEvent

end RequestScheduler
