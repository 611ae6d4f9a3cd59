/-!
# Kinds of request and classes of work

A request either only looks at the shared state (a read) or may change it (a write). Work handed
to the runtime carries a class: the two kinds of callback, and the short coordination tasks that
wait for a permit and publish an outcome.
-/

namespace RequestScheduler

/-- Whether a request may change the shared state. -/
inductive Kind where
  | read
  | write
  deriving DecidableEq, Repr, Inhabited

/-- The class under which work is handed to the runtime. -/
inductive TaskClass where
  | read
  | write
  | control
  deriving DecidableEq, Repr, Inhabited

namespace Kind

/-- The name of a kind in log events. -/
def name : Kind → String
  | .read => "read"
  | .write => "write"

/-- Callbacks run under the class of their kind. -/
def taskClass : Kind → TaskClass
  | .read => .read
  | .write => .write

end Kind

/-- The name of a class in log events. -/
def TaskClass.name : TaskClass → String
  | .read => "read"
  | .write => "write"
  | .control => "control"

end RequestScheduler
