import RequestScheduler.Text.Quoted

/-!
# Outcomes of requests

A request ends with the value of its callback or with one of four errors. Cancellation is always
told apart from failure. The status of a request is what its outcome leaves visible when the value
is gone.
-/

namespace RequestScheduler

/-- Why a request ended without a value. -/
inductive RequestError where
  /-- The callback returned this error. -/
  | failed (reason : String)
  /-- Cancellation was requested before an outcome was published. -/
  | cancelled
  /-- The callback panicked with this message. -/
  | panicked (message : String)
  /-- The request came after shutdown. -/
  | shutdownRejected
  deriving DecidableEq, Repr, Inhabited

namespace RequestError

/-- The text shown to a client. -/
def message : RequestError → String
  | .failed reason => "request callback failed: " ++ reason
  | .cancelled => "request cancelled"
  | .panicked text => "request callback panicked: " ++ text
  | .shutdownRejected => "request manager is shut down"

/-- The name of the error's kind. -/
def kindName : RequestError → String
  | .failed _ => "Failed"
  | .cancelled => "Cancelled"
  | .panicked _ => "Panicked"
  | .shutdownRejected => "ShutdownRejected"

def isCancelled : RequestError → Bool
  | .cancelled => true
  | _ => false

def isShutdown : RequestError → Bool
  | .shutdownRejected => true
  | _ => false

/-- The callback's own error, if the request ended with one. -/
def failure? : RequestError → Option String
  | .failed reason => some reason
  | _ => none

/-- The structural text of an error: its kind, with the quoted text it carries. -/
def debugText : RequestError → String
  | .failed reason => "Failed(" ++ Text.quote reason ++ ")"
  | .panicked text => "Panicked(" ++ Text.quote text ++ ")"
  | .cancelled => "Cancelled"
  | .shutdownRejected => "ShutdownRejected"

end RequestError

/-- What a request ends with. -/
abbrev Outcome (V : Type) := Except RequestError V

/-- The visible state of a request. -/
inductive Status where
  | pending
  | completed
  | failed
  | cancelled
  deriving DecidableEq, Repr, Inhabited

namespace Status

/-- A panic and a refusal count as failures; cancellation is a status of its own. -/
def ofOutcome {V : Type} : Outcome V → Status
  | .ok _ => .completed
  | .error .cancelled => .cancelled
  | .error _ => .failed

/-- The status of a request that has settled with this, or not at all. -/
def ofOutcome? {V : Type} : Option (Outcome V) → Status
  | none => .pending
  | some o => .ofOutcome o

def isTerminal : Status → Bool
  | .pending => false
  | _ => true

/-- The name of a status. -/
def name : Status → String
  | .pending => "Pending"
  | .completed => "Completed"
  | .failed => "Failed"
  | .cancelled => "Cancelled"

/-- The one-letter form of a status. -/
def letter : Status → Char
  | .pending => 'P'
  | .completed => 'C'
  | .failed => 'F'
  | .cancelled => 'X'

/-- The structural text of a request's consumer half. -/
def futureText (s : Status) : String := "RequestFuture \x7b status: " ++ s.name ++ " \x7d"

theorem isTerminal_ofOutcome {V : Type} (o : Outcome V) : (ofOutcome o).isTerminal = true := by
  rcases o with (_ | _ | _ | _) | _ <;> rfl

end Status

end RequestScheduler
