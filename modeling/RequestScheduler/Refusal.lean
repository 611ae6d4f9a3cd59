/-!
# Refusals of a script

A script is a list of steps that are carried out one at a time, each with an answer. A step that
cannot be carried out is refused and changes nothing.
-/

namespace RequestScheduler

/-- Why a step is refused. -/
inductive Refusal where
  /-- There is no such step, or nothing by the name it gives. -/
  | badStep
  /-- The step would have to wait for something that is pending. -/
  | wouldBlock
  /-- The future was consumed, given up, or never made. -/
  | noFuture
  | noRuntime
  deriving DecidableEq, Repr

/-- The name of a refusal. -/
def Refusal.name : Refusal → String
  | .badStep => "BadStep"
  | .wouldBlock => "WouldBlock"
  | .noFuture => "NoFuture"
  | .noRuntime => "NoRuntime"

/-- The message of a panic at joining a future whose outcome was handed out before. -/
def joinedTakenMessage : String := "RequestFuture outcome already taken"

/-- The message of a panic at polling a future whose outcome was handed out before. -/
def polledTakenMessage : String := "RequestFuture polled after completion"

end RequestScheduler
