/-!
# Settle-once cells

A cell is pending until its first settlement and settled for ever after. While it is pending it
collects wakers, each at most once, and continuations, in the order of their registration. The
settlement stores the value; the lists it leaves behind are what the settling party has to wake
and to run. A settled cell keeps its value, and hands it out once.
-/

namespace RequestScheduler

/-- A single-assignment cell holding a `V`, with wakers `W` and continuations `K`. -/
inductive Cell (V W K : Type) where
  /-- Not settled: who is to be woken, and what is to be run, in registration order. -/
  | pending (wakers : List W) (continuations : List K)
  /-- Settled with `value`; `taken` once the value has been handed out. -/
  | settled (value : V) (taken : Bool)
  deriving Repr

namespace Cell

variable {V W K : Type}

/-- A cell that nobody waits for. -/
def empty : Cell V W K := .pending [] []

instance : Inhabited (Cell V W K) := ⟨empty⟩

def isSettled : Cell V W K → Bool
  | .pending .. => false
  | .settled .. => true

/-- The value of the settlement, whether or not it was handed out. -/
def value? : Cell V W K → Option V
  | .pending .. => none
  | .settled v _ => some v

/-- The wakers to wake when the cell settles. -/
def wakers : Cell V W K → List W
  | .pending ws _ => ws
  | .settled .. => []

/-- The continuations to run when the cell settles. -/
def continuations : Cell V W K → List K
  | .pending _ ks => ks
  | .settled .. => []

/-- The first settlement stores its value; a later one changes nothing. -/
def settle (v : V) : Cell V W K → Cell V W K
  | .pending .. => .settled v false
  | .settled u taken => .settled u taken

/-- Keeps a continuation for the settlement. A settled cell keeps none: there the continuation
runs at its registration. -/
def register (k : K) : Cell V W K → Cell V W K
  | .pending ws ks => .pending ws (ks ++ [k])
  | .settled v taken => .settled v taken

/-- Keeps a waker for the settlement, unless the cell holds it already. -/
def await [DecidableEq W] (w : W) : Cell V W K → Cell V W K
  | .pending ws ks => .pending (if w ∈ ws then ws else ws ++ [w]) ks
  | .settled v taken => .settled v taken

/-- Hands the value out, the first time only. -/
def take : Cell V W K → Option V × Cell V W K
  | .settled v false => (some v, .settled v true)
  | c => (none, c)

@[simp] theorem isSettled_pending (ws : List W) (ks : List K) :
    (pending ws ks : Cell V W K).isSettled = false := rfl

@[simp] theorem isSettled_settled (v : V) (taken : Bool) :
    (settled v taken : Cell V W K).isSettled = true := rfl

@[simp] theorem isSettled_empty : (empty : Cell V W K).isSettled = false := rfl

@[simp] theorem isSettled_settle (v : V) (c : Cell V W K) : (c.settle v).isSettled = true := by
  cases c <;> rfl

@[simp] theorem isSettled_register (k : K) (c : Cell V W K) :
    (c.register k).isSettled = c.isSettled := by
  cases c <;> rfl

@[simp] theorem isSettled_await [DecidableEq W] (w : W) (c : Cell V W K) :
    (c.await w).isSettled = c.isSettled := by
  cases c <;> rfl

@[simp] theorem isSettled_take (c : Cell V W K) : c.take.2.isSettled = c.isSettled := by
  rcases c with _ | ⟨v, _ | _⟩ <;> rfl

@[simp] theorem value?_register (k : K) (c : Cell V W K) : (c.register k).value? = c.value? := by
  cases c <;> rfl

@[simp] theorem value?_await [DecidableEq W] (w : W) (c : Cell V W K) :
    (c.await w).value? = c.value? := by
  cases c <;> rfl

@[simp] theorem value?_take (c : Cell V W K) : c.take.2.value? = c.value? := by
  rcases c with _ | ⟨v, _ | _⟩ <;> rfl

/-- A settlement fixes the value: the first one wins. -/
theorem value?_settle (v : V) (c : Cell V W K) :
    (c.settle v).value? = some (c.value?.getD v) := by
  cases c <;> rfl

/-- A settled cell is not settled again. -/
theorem settle_of_isSettled {v : V} {c : Cell V W K} (h : c.isSettled = true) :
    c.settle v = c := by
  cases c with
  | pending ws ks => cases h
  | settled u taken => rfl

theorem exists_of_isSettled {c : Cell V W K} (h : c.isSettled = true) :
    ∃ v taken, c = .settled v taken := by
  cases c with
  | pending ws ks => cases h
  | settled v taken => exact ⟨v, taken, rfl⟩

/-- A cell has a value exactly when it is settled. -/
theorem isSome_value? (c : Cell V W K) : c.value?.isSome = c.isSettled := by
  cases c <;> rfl

@[simp] theorem continuations_settle (v : V) (c : Cell V W K) :
    (c.settle v).continuations = [] := by
  cases c <;> rfl

@[simp] theorem wakers_settle (v : V) (c : Cell V W K) : (c.settle v).wakers = [] := by
  cases c <;> rfl

@[simp] theorem wakers_register (k : K) (c : Cell V W K) : (c.register k).wakers = c.wakers := by
  cases c <;> rfl

theorem continuations_register (k : K) (c : Cell V W K) (h : c.isSettled = false) :
    (c.register k).continuations = c.continuations ++ [k] := by
  cases c with
  | pending ws ks => rfl
  | settled v taken => simp at h

section

variable {L : Type} (f : K → L)

/-- Replaces the continuations of a cell. -/
def map : Cell V W K → Cell V W L
  | .pending ws ks => .pending ws (ks.map f)
  | .settled v taken => .settled v taken

@[simp] theorem isSettled_map (c : Cell V W K) : (c.map f).isSettled = c.isSettled := by
  cases c <;> rfl

@[simp] theorem value?_map (c : Cell V W K) : (c.map f).value? = c.value? := by
  cases c <;> rfl

@[simp] theorem wakers_map (c : Cell V W K) : (c.map f).wakers = c.wakers := by
  cases c <;> rfl

@[simp] theorem continuations_map (c : Cell V W K) :
    (c.map f).continuations = c.continuations.map f := by
  cases c <;> rfl

@[simp] theorem map_settle (v : V) (c : Cell V W K) :
    (c.settle v).map f = (c.map f).settle v := by
  cases c <;> rfl

@[simp] theorem map_register (k : K) (c : Cell V W K) :
    (c.register k).map f = (c.map f).register (f k) := by
  cases c with
  | pending ws ks => simp [register, map]
  | settled v taken => rfl

@[simp] theorem map_await [DecidableEq W] (w : W) (c : Cell V W K) :
    (c.await w).map f = (c.map f).await w := by
  cases c <;> rfl

@[simp] theorem take_map (c : Cell V W K) : (c.map f).take = (c.take.1, c.take.2.map f) := by
  rcases c with _ | ⟨v, _ | _⟩ <;> rfl

end

end Cell

end RequestScheduler
