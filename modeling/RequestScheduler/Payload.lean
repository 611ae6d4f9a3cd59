/-!
# Panic payloads

A callback that panics throws a payload. A payload that is a text gives its text as the panic's
message; any other payload is reported by a fixed text.
-/

namespace RequestScheduler

/-- What a callback does at its end, if it is asked to throw: most payloads panic, a plain value
is returned instead. `D` is the type of plain values. -/
inductive Payload (D : Type) where
  /-- Panics with a text built at run time. -/
  | text (s : String)
  /-- Panics with a text fixed in the program. -/
  | fixed
  /-- Panics with something that is no text. -/
  | other
  /-- Does not panic: the value is returned. -/
  | plain (d : D)
  deriving Repr

/-- The message of a panic that carries no text. -/
def nonTextMessage : String := "<non-string panic payload>"

/-- The text fixed in the program. -/
def fixedMessage : String := "static panic text"

/-- The message of the panic, or the value where there is none. -/
def Payload.message {D : Type} : Payload D → Except D String
  | .text s => .ok s
  | .fixed => .ok fixedMessage
  | .other => .ok nonTextMessage
  | .plain d => .error d

/-- How a piece of work ends that was handed to the runtime. -/
inductive Ending (D : Type) where
  /-- It was given up before its end. -/
  | aborted
  | ran (payload : Payload D)
  deriving Repr

/-- The message that is found in the failure of the work, if it is a panic; or the value that the
work returned. -/
def Ending.panicMessage {D : Type} : Ending D → Except D (Option String)
  | .aborted => .ok none
  | .ran payload => payload.message.map some

end RequestScheduler
