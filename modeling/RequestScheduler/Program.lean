import RequestScheduler.Kind
import RequestScheduler.Outcome
import RequestScheduler.Payload

/-!
# Programs of callbacks and continuations

What a client's code does to the scheduler is data: a list of effects. A callback runs effects,
may park once in the middle, and ends with a result. Effects nest, since a callback may submit
further callbacks and register continuations with effects of their own. `D` is the type of the
client's own values, which the scheduler only carries.
-/

namespace RequestScheduler

/-- A value as a callback hands it over. -/
inductive Value (D : Type) where
  | nothing
  | flag (b : Bool)
  | number (n : Int64)
  | data (d : D)
  deriving Repr

/-- How a callback ends. -/
inductive Result (D : Type) where
  | nothing
  /-- The value that the shared register has at that moment. -/
  | register
  /-- Whether its cancellation has been requested at that moment. -/
  | indicator
  | value (d : D)
  | error (reason : String)
  | throw (payload : Payload D)
  deriving Repr

/-- The outcome that a result stands for, with the register and the indicator as they are. -/
def Result.outcome {D : Type} (register : Int64) (tripped : Bool) : Result D → Outcome (Value D)
  | .nothing => .ok .nothing
  | .register => .ok (.number register)
  | .indicator => .ok (.flag tripped)
  | .value d => .ok (.data d)
  | .error reason => .error (.failed reason)
  | .throw payload =>
    match payload.message with
    | .ok message => .error (.panicked message)
    | .error d => .ok (.data d)

/-- What a result comes to, said for each way in which a callback ends: what it returns as a value is
the value of the request, an error that it returns is a failure with this error, and a panic is one
with the text of the panic. -/
inductive Result.ComesTo {D : Type} (register : Int64) (tripped : Bool) :
    Result D → Outcome (Value D) → Prop where
  | nothing : ComesTo register tripped .nothing (.ok .nothing)
  | register : ComesTo register tripped .register (.ok (.number register))
  | indicator : ComesTo register tripped .indicator (.ok (.flag tripped))
  | value (d : D) : ComesTo register tripped (.value d) (.ok (.data d))
  | error (reason : String) : ComesTo register tripped (.error reason) (.error (.failed reason))
  | text (message : String) :
    ComesTo register tripped (.throw (.text message)) (.error (.panicked message))
  | fixed : ComesTo register tripped (.throw .fixed) (.error (.panicked fixedMessage))
  | other : ComesTo register tripped (.throw .other) (.error (.panicked nonTextMessage))
  /-- What is thrown and does not panic is returned. -/
  | plain (d : D) : ComesTo register tripped (.throw (.plain d)) (.ok (.data d))

theorem Result.comesTo_iff {D : Type} {register : Int64} {tripped : Bool} {r : Result D}
    {o : Outcome (Value D)} : r.ComesTo register tripped o ↔ o = r.outcome register tripped := by
  constructor
  · intro h
    cases h <;> rfl
  · rintro rfl
    cases r with
    | nothing => exact .nothing
    | register => exact .register
    | indicator => exact .indicator
    | value d => exact .value d
    | error reason => exact .error reason
    | throw payload =>
        cases payload with
        | text message => exact .text message
        | fixed => exact .fixed
        | other => exact .other
        | plain d => exact .plain d

/-- Whether and how a callback parks between its two lists of effects. -/
inductive Mode where
  /-- Does not park. -/
  | straight
  /-- Parks until it is released. -/
  | hold
  /-- Parks until it is released or its cancellation is requested. -/
  | cooperative
  deriving DecidableEq, Repr, Inhabited

/-- One action of a client's code. Requests are named by their identifiers. -/
inductive Effect (D : Type) where
  | set (n : Int64)
  | add (n : Int64)
  | mul (n : Int64)
  | log (d : D)
  /-- Submits a callback with these parts. -/
  | submit (kind : Kind) (mode : Mode) (pre post : List (Effect D)) (result : Result D)
  | cancel (id : Nat)
  | cancelAll
  | status (id : Nat)
  | snapshot
  /-- Registers a continuation with these effects. -/
  | onSettled (id : Nat) (tag : D) (effects : List (Effect D))
  deriving Repr

/-- A callback: effects, a place to park, more effects, a result. -/
structure Body (D : Type) where
  mode : Mode := .straight
  pre : List (Effect D) := []
  post : List (Effect D) := []
  result : Result D := .nothing
  deriving Repr

instance {D : Type} : Inhabited (Body D) := ⟨{}⟩

/-- What a slot runs once it is dispatched and holds its permit. -/
inductive Job (D : Type) where
  /-- A callback, run on the pool of blocking threads. -/
  | callback (body : Body D)
  /-- Publishes this outcome, or nothing, within the slot's own task. -/
  | immediate (outcome : Option (Outcome (Value D)))
  /-- Waits to be released and then completes. -/
  | latched (value : Value D)
  deriving Repr

mutual

/-- The number of actions in an effect, counting those of nested callbacks and continuations. A
callback counts two more than its effects: its start and its end. -/
def Effect.size {D : Type} : Effect D → Nat
  | .submit _ _ pre post _ => 3 + Effect.sizes pre + Effect.sizes post
  | .onSettled _ _ effects => 1 + Effect.sizes effects
  | _ => 1

/-- The number of actions in a list of effects. -/
def Effect.sizes {D : Type} : List (Effect D) → Nat
  | [] => 0
  | e :: es => e.size + Effect.sizes es

end

/-- The number of actions in a callback. -/
def Body.size {D : Type} (b : Body D) : Nat := 2 + Effect.sizes b.pre + Effect.sizes b.post

end RequestScheduler
