import RequestScheduler.Permits

/-!
# Configuration of a manager

A configuration bounds the reads that run at once and says how long a shutdown waits. Its numbers
have 64 bits. A bound of zero is the only invalid value; a bound too large for a pool of permits is
found out when the manager is made.
-/

namespace RequestScheduler

/-- The configuration of a manager. -/
structure Config where
  /-- How many read callbacks run at once. No bound if absent. -/
  maxConcurrentReads : Option UInt64 := none
  /-- How long a shutdown waits for the slots to vacate. -/
  shutdownTimeoutMs : UInt64 := 5000
  deriving DecidableEq, Repr, Inhabited

/-- A length of time, as whole seconds and the nanoseconds beyond them. -/
structure Duration where
  seconds : Nat
  nanoseconds : Nat
  deriving DecidableEq, Repr

/-- A field with a value out of range. -/
structure InvalidField where
  field : String
  reason : String
  deriving DecidableEq, Repr

/-- The text shown for an invalid field. -/
def InvalidField.message (e : InvalidField) : String :=
  "invalid value for '" ++ e.field ++ "': " ++ e.reason

namespace Config

/-- The name of the bound in a written configuration. -/
def readsKey : String := "max_concurrent_reads"

/-- The name of the timeout in a written configuration. -/
def timeoutKey : String := "shutdown_timeout_ms"

/-- A bound of zero is invalid. -/
def validate (c : Config) : Except InvalidField Unit :=
  if c.maxConcurrentReads = some 0 then
    .error { field := readsKey, reason := "must be greater than zero" }
  else .ok ()

/-- The message with which a bound of zero is refused by `withMaxConcurrentReads`. -/
def zeroReadsMessage : String := "max_concurrent_reads must be > 0"

/-- Bounds the reads that run at once. A bound of zero is refused with a message. -/
def withMaxConcurrentReads (limit : UInt64) (c : Config) : Except String Config :=
  if limit = 0 then .error zeroReadsMessage
  else .ok { c with maxConcurrentReads := some limit }

/-- Sets the timeout to the whole milliseconds of a duration, or to the greatest timeout if it is
longer than that. -/
def withShutdownTimeout (d : Duration) (c : Config) : Config :=
  { c with
    shutdownTimeoutMs :=
      UInt64.ofNat (min (d.seconds * 1000 + d.nanoseconds / 1000000) (UInt64.size - 1)) }

/-- The timeout as a duration. -/
def shutdownTimeout (c : Config) : Duration where
  seconds := c.shutdownTimeoutMs.toNat / 1000
  nanoseconds := c.shutdownTimeoutMs.toNat % 1000 * 1000000

/-- Why a manager cannot be made. -/
inductive Refusal where
  | invalid (e : InvalidField)
  /-- The bound is beyond what a pool of permits can hold. -/
  | tooManyPermits
  deriving DecidableEq, Repr

/-- The message with which a pool refuses a bound that is too large. -/
def tooManyPermitsMessage : String :=
  "a semaphore may not have more than MAX_PERMITS permits (" ++ toString Permits.maximum ++ ")"

/-- The pool of permits of a new manager, if its reads are bounded. -/
def permits (c : Config) : Except Refusal (Option Permits) :=
  match c.validate with
  | .error e => .error (.invalid e)
  | .ok () =>
    match c.maxConcurrentReads with
    | none => .ok none
    | some n =>
      if Permits.maximum < n.toNat then .error .tooManyPermits
      else .ok (some { available := n.toNat })

/-- The structural text of a configuration. -/
def text (c : Config) : String :=
  let reads := match c.maxConcurrentReads with
    | none => "None"
    | some n => "Some(" ++ toString n.toNat ++ ")"
  "ManagerConfig \x7b max_concurrent_reads: " ++ reads ++ ", shutdown_timeout_ms: " ++
    toString c.shutdownTimeoutMs.toNat ++ " \x7d"

end Config

end RequestScheduler
