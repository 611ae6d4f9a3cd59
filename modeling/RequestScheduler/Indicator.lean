import RequestScheduler.Indicator.Token

/-!
# Cancellation indicators

An indicator is a flag that is set once, together with a token that wakes those who wait. The flag
decides which of the calls that cancel the indicator wins, and only that call cancels the token.
Handles are names of indicators: a clone of a handle names the same indicator, so that all clones of
a handle form a family.

A waiter waits for the token, with the waker of its last poll.
-/

namespace RequestScheduler

/-- A flag, and the token for those who wait until it is set. -/
structure Indicator (T : Type := Token) where
  flag : Bool := false
  token : T
  deriving DecidableEq, Repr

namespace Indicator

variable {T : Type} [CancellationToken T]

/-- An indicator that is not cancelled. -/
def new : Indicator T := { token := CancellationToken.fresh }

/-- Sets the flag. The call that set it cancels the token. The answer is whether this call set it,
and whom it wakes. -/
def cancel (d : Indicator T) : Bool × List Nat × Indicator T :=
  if d.flag then (false, [], d)
  else (true, (CancellationToken.cancel d.token).1,
    { flag := true, token := (CancellationToken.cancel d.token).2 })

/-- Cancels the indicator as often as `calls` says: how many calls set the flag, and whom they
wake. -/
def race (calls : Nat) (d : Indicator T) : Nat × List Nat × Indicator T :=
  match calls with
  | 0 => (0, [], d)
  | n + 1 =>
    let (won, woken, d) := d.cancel
    let (winners, more, d) := d.race n
    (won.toNat + winners, woken ++ more, d)

/-- A waiter asks whether the token is cancelled. -/
def poll (waiter waker : Nat) (d : Indicator T) : Bool × Indicator T :=
  ((CancellationToken.poll waiter waker d.token).1,
    { d with token := (CancellationToken.poll waiter waker d.token).2 })

/-- A waiter waits no longer. -/
def leave (waiter : Nat) (d : Indicator T) : Indicator T :=
  { d with token := CancellationToken.leave waiter d.token }

@[simp] theorem flag_cancel (d : Indicator T) : d.cancel.2.2.flag = true := by
  unfold cancel
  split
  · assumption
  · rfl

/-- A cancellation wins exactly when the flag was clear. -/
theorem fst_cancel (d : Indicator T) : d.cancel.1 = !d.flag := by
  unfold cancel
  split <;> simp_all

/-- Nothing happens when a set flag is set. -/
theorem cancel_of_flag {d : Indicator T} (h : d.flag = true) : d.cancel = (false, [], d) := by
  rw [cancel, if_pos h]

theorem race_of_flag {d : Indicator T} (h : d.flag = true) (calls : Nat) :
    d.race calls = (0, [], d) := by
  induction calls with
  | zero => rfl
  | succ n ih => simp [race, cancel_of_flag h, ih]

/-- Of several calls the first one does what there is to do. -/
theorem race_succ (calls : Nat) (d : Indicator T) :
    d.race (calls + 1) = (d.cancel.1.toNat, d.cancel.2.1, d.cancel.2.2) := by
  simp [race, race_of_flag d.flag_cancel]

end Indicator

/-- Indicators with the handles that name them and the waiters that wait for them. -/
structure Indicators (T : Type := Token) [CancellationToken T] where
  family : List (Indicator T) := [.new]
  /-- The indicator that each handle names. -/
  handles : List Nat := [0]
  /-- The indicator that each waiter waits for, and nothing for a waiter that is gone. -/
  waiters : List (Option Nat) := []

namespace Indicators

variable {T : Type} [CancellationToken T]

/-- The indicator that a handle names. -/
def ofHandle? (s : Indicators T) (handle : Nat) : Option (Nat × Indicator T) := do
  let i ← s.handles[handle]?
  let d ← s.family[i]?
  return (i, d)

/-- The indicator of a waiter that is not gone. -/
def ofWaiter? (s : Indicators T) (waiter : Nat) : Option (Nat × Indicator T) := do
  let i ← (s.waiters[waiter]?).join
  let d ← s.family[i]?
  return (i, d)

/-- Whether the flag of a handle is set. -/
def isCancelled (s : Indicators T) (handle : Nat) : Bool :=
  ((s.ofHandle? handle).map (·.2.flag)).getD false

/-- Replaces an indicator. -/
def put (i : Nat) (d : Indicator T) (s : Indicators T) : Indicators T :=
  { s with family := s.family.set i d }

/-- A handle of a new indicator. -/
def make (s : Indicators T) : Indicators T :=
  { s with family := s.family ++ [.new], handles := s.handles ++ [s.family.length] }

/-- One more handle of an indicator. -/
def clone (i : Nat) (s : Indicators T) : Indicators T := { s with handles := s.handles ++ [i] }

/-- A new waiter for an indicator. -/
def wait (i : Nat) (s : Indicators T) : Indicators T := { s with waiters := s.waiters ++ [some i] }

/-- A waiter is gone. -/
def forget (waiter : Nat) (s : Indicators T) : Indicators T :=
  { s with waiters := s.waiters.set waiter none }

/-- The flags of all handles. -/
def flags (s : Indicators T) : List Bool := (List.range s.handles.length).map s.isCancelled

end Indicators

end RequestScheduler
