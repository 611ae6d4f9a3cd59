import Mathlib.Data.List.Induction
import Mathlib.Data.List.TakeWhile
import RequestScheduler.Cell

/-!
# Calls on a cell

Whoever shares a cell polls it, takes its value, registers continuations on it or attempts to settle
it. Until the first attempt the cell holds each waker that it was polled with once, in the order of
the first polls, and the continuations in the order of their registration (`after_of_pending`). The
first attempt fixes its value, and no call changes that (`after_of_settle`).

A call may set off wakes and runs of continuations. From the first attempt on, what the calls have
set off is one wake for each waker and one run for each continuation, and until then it is nothing
(`owed_append`).
-/

namespace RequestScheduler.Cell

variable {V W K : Type}

/-- A call on a cell. -/
inductive Call (V W K : Type) where
  /-- Asks whether the cell is settled, and has the waker woken if it is not. -/
  | poll (w : W)
  /-- Takes the value out, if it is there. -/
  | take
  | register (k : K)
  /-- Attempts to settle the cell. -/
  | settle (v : V)

/-- What a call on a cell may set off. -/
inductive Signal (W K : Type) where
  | wake (w : W)
  | run (k : K)

/-- What waits for the settlement of a cell: the wakers are woken, and then the continuations are
run. -/
def signals (c : Cell V W K) : List (Signal W K) :=
  c.wakers.map .wake ++ c.continuations.map .run

namespace Call

/-- What a call does to the cell. -/
def apply [DecidableEq W] : Call V W K → Cell V W K → Cell V W K
  | .poll w, c => c.await w
  | .take, c => c.take.2
  | .register k, c => c.register k
  | .settle v, c => c.settle v

def isSettle : Call V W K → Bool
  | .settle _ => true
  | _ => false

def waker? : Call V W K → Option W
  | .poll w => some w
  | _ => none

def continuation? : Call V W K → Option K
  | .register k => some k
  | _ => none

/-- What a call sets off: an attempt to settle a pending cell what waits for it, and a registration
on a settled cell the continuation. -/
def sets : Call V W K → Cell V W K → List (Signal W K)
  | .settle _, c => c.signals
  | .register k, c => if c.isSettled then [.run k] else []
  | .poll _, _ | .take, _ => []

end Call

/-- Whether somebody has attempted to settle the cell. -/
def attempted (l : List (Call V W K)) : Bool := l.any Call.isSettle

/-- The wakers that a cell was polled with before the first attempt to settle it, each once, in the
order of the first polls. -/
def polled [DecidableEq W] (l : List (Call V W K)) : List W :=
  ((l.takeWhile (!·.isSettle)).filterMap Call.waker?).eraseDups

/-- The continuations that were registered on a cell. -/
def registered (l : List (Call V W K)) : List K := l.filterMap Call.continuation?

/-- What a settled cell has set off: a wake for each of its wakers and a run for each of its
continuations. A pending cell has set off nothing. -/
def owed [DecidableEq W] (l : List (Call V W K)) : List (Signal W K) :=
  if attempted l then (polled l).map .wake ++ (registered l).map .run else []

/-- The cell that a list of calls leads to. -/
def after [DecidableEq W] (l : List (Call V W K)) : Cell V W K :=
  l.foldl (fun c x => x.apply c) .empty

section

variable {l before : List (Call V W K)} {x : Call V W K} {v : V} {k : K}

theorem attempted_append (l : List (Call V W K)) (x : Call V W K) :
    attempted (l ++ [x]) = (attempted l || x.isSettle) := by
  simp [attempted]

@[simp] theorem registered_append (l : List (Call V W K)) (x : Call V W K) :
    registered (l ++ [x]) = registered l ++ x.continuation?.toList := by
  cases hx : x.continuation? <;> simp [registered, hx]

theorem takeWhile_of_not_attempted (h : attempted l = false) :
    l.takeWhile (!·.isSettle) = l := by
  rw [List.takeWhile_eq_self_iff]
  simpa [attempted] using h

/-- After an attempt no poll counts any more. -/
theorem takeWhile_append_of_attempted (h : attempted l = true) (x : Call V W K) :
    (l ++ [x]).takeWhile (!·.isSettle) = l.takeWhile (!·.isSettle) := by
  rw [List.takeWhile_append, if_neg]
  intro hlen
  have hall : l.takeWhile (!·.isSettle) = l :=
    (List.takeWhile_prefix _).eq_of_length hlen
  rw [List.takeWhile_eq_self_iff] at hall
  obtain ⟨y, hy, hset⟩ := List.any_eq_true.mp h
  simpa [hset] using hall y hy

/-- A settled cell has nothing that waits for it. -/
theorem signals_of_isSettled {c : Cell V W K} (h : c.isSettled = true) : c.signals = [] := by
  obtain ⟨u, taken, rfl⟩ := exists_of_isSettled h
  rfl

variable [DecidableEq W]

@[simp] theorem after_append (l : List (Call V W K)) (x : Call V W K) :
    after (l ++ [x]) = x.apply (after l) := by
  simp [after]

theorem polled_append_of_attempted (h : attempted l = true) (x : Call V W K) :
    polled (l ++ [x]) = polled l := by
  rw [polled, takeWhile_append_of_attempted h, polled]

theorem eraseDups_append_singleton (ws : List W) (w : W) :
    (ws ++ [w]).eraseDups = if w ∈ ws.eraseDups then ws.eraseDups else ws.eraseDups ++ [w] := by
  rw [List.eraseDups_append]
  by_cases hw : w ∈ ws
  · have hold : [w].removeAll ws = [] := by simp [List.removeAll, hw]
    rw [if_pos (List.mem_eraseDups.mpr hw), hold, List.eraseDups_nil, List.append_nil]
  · have hnew : [w].removeAll ws = [w] := by simp [List.removeAll, hw]
    rw [if_neg (mt List.mem_eraseDups.mp hw), hnew]
    rfl

/-- A poll of a pending cell counts unless the cell has its waker already. -/
theorem polled_append_poll (h : attempted l = false) (w : W) :
    polled (l ++ [.poll w]) = if w ∈ polled l then polled l else polled l ++ [w] := by
  have hnew : attempted (l ++ [.poll w]) = false := by
    rw [attempted_append, h]
    rfl
  rw [polled, polled, takeWhile_of_not_attempted h, takeWhile_of_not_attempted hnew,
    List.filterMap_append]
  exact eraseDups_append_singleton (l.filterMap Call.waker?) w

theorem polled_append_of_not_poll (h : attempted l = false) (hx : x.waker? = none) :
    polled (l ++ [x]) = polled l := by
  rw [polled, polled, List.takeWhile_append, takeWhile_of_not_attempted h, if_pos rfl]
  cases hset : x.isSettle <;> simp [hset, hx]

/-- A call does not settle a cell unless it attempts to, and does not reopen it. -/
theorem isSettled_apply (x : Call V W K) (c : Cell V W K) :
    (x.apply c).isSettled = (c.isSettled || x.isSettle) := by
  cases x <;> simp [Call.apply, Call.isSettle]

/-- A settled cell changes only when its value is taken. -/
theorem apply_of_isSettled {c : Cell V W K} (h : c.isSettled = true) (hx : x ≠ .take) :
    x.apply c = c := by
  obtain ⟨u, taken, rfl⟩ := exists_of_isSettled h
  cases x with
  | take => exact absurd rfl hx
  | _ => rfl

/-- A cell is settled once somebody has attempted to settle it. -/
theorem isSettled_after (l : List (Call V W K)) : (after l).isSettled = attempted l := by
  induction l using List.reverseRecOn with
  | nil => rfl
  | append_singleton l x ih => rw [after_append, isSettled_apply, ih, attempted_append]

/-- What a cell holds that nobody has attempted to settle. -/
theorem after_of_pending (h : attempted l = false) :
    after l = .pending (polled l) (registered l) := by
  induction l using List.reverseRecOn with
  | nil => rfl
  | append_singleton l x ih =>
      rw [attempted_append, Bool.or_eq_false_iff] at h
      obtain ⟨hl, hx⟩ := h
      rw [after_append, ih hl, registered_append]
      cases x with
      | poll w =>
          rw [polled_append_poll hl]
          simp [Call.apply, Cell.await, Call.continuation?]
      | take =>
          rw [polled_append_of_not_poll hl rfl]
          simp [Call.apply, Cell.take, Call.continuation?]
      | register k =>
          rw [polled_append_of_not_poll hl rfl]
          rfl
      | settle v => cases hx

/-- What the first attempt settles a cell with stays. -/
theorem after_of_settle (h : attempted before = false) (v : V) (rest : List (Call V W K)) :
    ∃ taken, after (before ++ .settle v :: rest) = .settled v taken := by
  induction rest using List.reverseRecOn with
  | nil =>
      rw [after_append, after_of_pending h]
      exact ⟨false, rfl⟩
  | append_singleton rest x ih =>
      obtain ⟨taken, ih⟩ := ih
      rw [← List.cons_append, ← List.append_assoc, after_append, ih]
      cases x with
      | take => cases taken <;> exact ⟨true, rfl⟩
      | _ => exact ⟨taken, rfl⟩

/-- Every call sets off what the cell owes after it and has not owed before. -/
theorem owed_append (l : List (Call V W K)) (x : Call V W K) :
    owed (l ++ [x]) = owed l ++ x.sets (after l) := by
  cases hl : attempted l with
  | true =>
      obtain ⟨v, taken, hc⟩ := Cell.exists_of_isSettled ((isSettled_after l).trans hl)
      rw [owed, owed, attempted_append, hl, polled_append_of_attempted hl, registered_append, hc]
      cases x <;> simp [Call.sets, Call.continuation?, signals, Cell.wakers, Cell.continuations]
  | false =>
      rw [owed, owed, attempted_append, hl, after_of_pending hl]
      cases x with
      | settle v =>
          rw [polled_append_of_not_poll hl rfl, registered_append]
          simp [Call.sets, Call.isSettle, Call.continuation?, signals, Cell.wakers,
            Cell.continuations]
      | _ => simp [Call.sets, Call.isSettle]

end

end RequestScheduler.Cell
