import RequestScheduler.Cell
import RequestScheduler.Outcome

/-!
# Requests

A request is a settle-once cell for its outcome together with the flag of its cancellation
indicator. Whoever publishes an outcome after the flag was set publishes cancellation instead. The
status of a request is stored along with the outcome, in a place of its own, so that it can be read
without the cell and stays when the outcome was handed out.
-/

namespace RequestScheduler

/-- A request with values `V`, wakers `W` and continuations `K`. -/
structure Request (V W K : Type) where
  cell : Cell (Outcome V) W K := .empty
  /-- Whether cancellation has been requested. -/
  tripped : Bool := false
  /-- The status, as the publication stored it. -/
  mirror : Status := .pending
  /-- The status is that of the outcome in the cell. -/
  mirrors : mirror = .ofOutcome? cell.value? := by rfl
  deriving Repr

namespace Request

variable {V W K : Type}

instance : Inhabited (Request V W K) := ⟨{}⟩

def isSettled (r : Request V W K) : Bool := r.cell.isSettled

def status (r : Request V W K) : Status := r.mirror

/-- The outcome that a publication of `o` stores now: a requested cancellation overrides it. -/
def resolve (r : Request V W K) (o : Outcome V) : Outcome V :=
  if r.tripped then .error .cancelled else o

/-- Publishes an outcome and stores its status, unless the request is settled. -/
def publish (o : Outcome V) (r : Request V W K) : Request V W K :=
  { r with
    cell := r.cell.settle (r.resolve o)
    mirror := if r.isSettled then r.mirror else .ofOutcome (r.resolve o)
    mirrors := by
      have hmirror := r.mirrors
      rw [isSettled, ← Cell.isSome_value?, Cell.value?_settle]
      cases hv : r.cell.value? with
      | none => rfl
      | some v => exact hmirror.trans (congrArg _ hv) }

/-- Sets the flag of the indicator. -/
def trip (r : Request V W K) : Request V W K := { r with tripped := true }

/-- Requests cancellation: the flag first, then the outcome. -/
def cancel (r : Request V W K) : Request V W K := r.trip.publish (.error .cancelled)

/-- Settles as cancelled and leaves the flag alone: the callback can no longer publish. -/
def abandon (r : Request V W K) : Request V W K := r.publish (.error .cancelled)

/-- Keeps a continuation for the settlement. -/
def register (k : K) (r : Request V W K) : Request V W K :=
  { r with
    cell := r.cell.register k
    mirrors := r.mirrors.trans (congrArg _ (Cell.value?_register k r.cell).symm) }

/-- Keeps a waker for the settlement. -/
def await [DecidableEq W] (w : W) (r : Request V W K) : Request V W K :=
  { r with
    cell := r.cell.await w
    mirrors := r.mirrors.trans (congrArg _ (Cell.value?_await w r.cell).symm) }

/-- Hands the outcome out, the first time only. -/
def take (r : Request V W K) : Option (Outcome V) × Request V W K :=
  (r.cell.take.1,
    { r with
      cell := r.cell.take.2
      mirrors := r.mirrors.trans (congrArg _ (Cell.value?_take r.cell).symm) })

/-- A request that is settled from the start. -/
def ready (o : Outcome V) : Request V W K := publish o {}

@[simp] theorem isSettled_publish (o : Outcome V) (r : Request V W K) :
    (r.publish o).isSettled = true := by
  simp [publish, isSettled]

/-- The first publication fixes the outcome. -/
theorem value?_publish (o : Outcome V) (r : Request V W K) :
    (r.publish o).cell.value? = some (r.cell.value?.getD (r.resolve o)) :=
  Cell.value?_settle _ _

@[simp] theorem continuations_publish (o : Outcome V) (r : Request V W K) :
    (r.publish o).cell.continuations = [] := by
  simp [publish]

@[simp] theorem tripped_publish (o : Outcome V) (r : Request V W K) :
    (r.publish o).tripped = r.tripped := rfl

@[simp] theorem tripped_cancel (r : Request V W K) : r.cancel.tripped = true := rfl

@[simp] theorem isSettled_trip (r : Request V W K) : r.trip.isSettled = r.isSettled := rfl

@[simp] theorem status_trip (r : Request V W K) : r.trip.status = r.status := rfl

@[simp] theorem status_register (k : K) (r : Request V W K) :
    (r.register k).status = r.status := rfl

@[simp] theorem status_take (r : Request V W K) : r.take.2.status = r.status := rfl

/-- The status is that of the outcome, once there is one. -/
theorem status_of_value? {r : Request V W K} {o : Outcome V} (h : r.cell.value? = some o) :
    r.status = .ofOutcome o :=
  r.mirrors.trans (congrArg _ h)

theorem status_of_not_isSettled {r : Request V W K} (h : r.isSettled = false) :
    r.status = .pending := by
  rw [isSettled, ← Cell.isSome_value?, Option.isSome_eq_false_iff, Option.isNone_iff_eq_none] at h
  exact r.mirrors.trans (congrArg _ h)

/-- The status is terminal exactly when the request is settled. -/
theorem isTerminal_status (r : Request V W K) :
    r.status.isTerminal = true ↔ r.isSettled = true := by
  cases hs : r.isSettled with
  | false => simp [status_of_not_isSettled hs, Status.isTerminal]
  | true =>
      rw [isSettled, ← Cell.isSome_value?] at hs
      obtain ⟨o, ho⟩ := Option.isSome_iff_exists.mp hs
      rw [status_of_value? ho, Status.isTerminal_ofOutcome]

/-- A request is pending exactly while it is not settled. -/
theorem status_eq_pending_iff (r : Request V W K) :
    r.status = .pending ↔ r.isSettled = false := by
  rw [← Bool.not_eq_true, ← isTerminal_status]
  cases r.status <;> simp [Status.isTerminal]

end Request

end RequestScheduler
