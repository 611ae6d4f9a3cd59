/-!
# Cancellation tokens

A token wakes those who wait for a cancellation. Whoever uses one relies on its operations and on
how they behave (`CancellationToken`, `LawfulToken`), and on nothing else of it.

The token that runs here (`Token`) keeps a waiter in the place of its first poll in the order in
which waiters are woken.
-/

namespace RequestScheduler

/-- What a token can be asked to do. Waiters and wakers have numbers. An indicator asks neither for
`isCancelled` nor for `waker?`: they say what a token holds. -/
class CancellationToken (T : Type) where
  fresh : T
  isCancelled : T → Bool
  /-- The waker that a waiter has left with the token. -/
  waker? : T → Nat → Option Nat
  /-- Cancels the token. The answer is which wakers are woken. -/
  cancel : T → List Nat × T
  /-- A waiter asks whether the token is cancelled, and leaves its waker if it is not. -/
  poll (waiter waker : Nat) : T → Bool × T
  /-- A waiter waits no longer. -/
  leave (waiter : Nat) : T → T

section

open CancellationToken

/-- How a token behaves. The first cancellation cancels it and wakes each waiter that has left a
waker, once and with the waker that it left last. A poll is ready if the token is cancelled, and
leaves the waker if it is not. -/
class LawfulToken (T : Type) [CancellationToken T] : Prop where
  isCancelled_fresh : isCancelled (fresh : T) = false
  waker?_fresh (w : Nat) : waker? (fresh : T) w = none
  isCancelled_cancel (t : T) : isCancelled (cancel t).2 = true
  woken_cancel (t : T) : isCancelled t = false → ∃ pairs : List (Nat × Nat),
    (pairs.map Prod.fst).Nodup ∧ (cancel t).1 = pairs.map Prod.snd ∧
      ∀ w k, (w, k) ∈ pairs ↔ waker? t w = some k
  fst_poll (waiter waker : Nat) (t : T) : (poll waiter waker t).1 = isCancelled t
  isCancelled_poll (waiter waker : Nat) (t : T) :
    isCancelled (poll waiter waker t).2 = isCancelled t
  waker?_poll (waiter waker : Nat) (t : T) (w : Nat) : isCancelled t = false →
    waker? (poll waiter waker t).2 w = if w = waiter then some waker else waker? t w
  isCancelled_leave (waiter : Nat) (t : T) : isCancelled (leave waiter t) = isCancelled t
  waker?_leave (waiter : Nat) (t : T) (w : Nat) :
    waker? (leave waiter t) w = if w = waiter then none else waker? t w

end

/-! ### Waiters in the order of their first polls -/

namespace Token

/-- Puts a waiter down with a waker, in its old place if it has one. -/
def enlist (waiter waker : Nat) : List (Nat × Nat) → List (Nat × Nat)
  | [] => [(waiter, waker)]
  | (w, k) :: rest =>
    if w = waiter then (w, waker) :: rest else (w, k) :: enlist waiter waker rest

/-- Whoever is put down is new at the end, or has been there before. -/
theorem map_fst_enlist (waiter waker : Nat) (l : List (Nat × Nat)) :
    (enlist waiter waker l).map Prod.fst =
      if waiter ∈ l.map Prod.fst then l.map Prod.fst else l.map Prod.fst ++ [waiter] := by
  induction l with
  | nil => rfl
  | cons p rest ih =>
    by_cases h : p.1 = waiter
    · simp [enlist, h]
    · have hne : waiter ≠ p.1 := fun heq => h heq.symm
      simp only [enlist, if_neg h, List.map_cons, ih, List.mem_cons, hne, false_or]
      split <;> rfl

theorem nodup_enlist (waiter waker : Nat) {l : List (Nat × Nat)} (h : (l.map Prod.fst).Nodup) :
    ((enlist waiter waker l).map Prod.fst).Nodup := by
  rw [map_fst_enlist]
  split
  · exact h
  · next hnew =>
    refine List.nodup_append.mpr ⟨h, by simp, ?_⟩
    intro w hw v hv
    obtain rfl := List.mem_singleton.mp hv
    rintro rfl
    exact hnew hw

theorem lookup_cons (w x y : Nat) (rest : List (Nat × Nat)) :
    List.lookup w ((x, y) :: rest) = if w = x then some y else rest.lookup w := by
  by_cases h : w = x
  · simp [h]
  · rw [List.lookup_cons, beq_eq_false_iff_ne.mpr h, if_neg h]

theorem lookup_enlist (waiter waker w : Nat) (l : List (Nat × Nat)) :
    (enlist waiter waker l).lookup w = if w = waiter then some waker else l.lookup w := by
  induction l with
  | nil => rw [enlist, lookup_cons]
  | cons p rest ih =>
    obtain ⟨x, y⟩ := p
    by_cases hx : x = waiter
    · subst hx
      by_cases hw : w = x <;> simp [enlist, lookup_cons, hw]
    · rw [enlist, if_neg hx, lookup_cons, lookup_cons, ih]
      by_cases hw : w = x <;> simp [hw, hx]

theorem lookup_filter (waiter w : Nat) (l : List (Nat × Nat)) :
    (l.filter (·.1 != waiter)).lookup w = if w = waiter then none else l.lookup w := by
  induction l with
  | nil => simp
  | cons p rest ih =>
    obtain ⟨x, y⟩ := p
    by_cases hx : x = waiter
    · subst hx
      rw [List.filter_cons_of_neg (by simp), ih, lookup_cons]
      by_cases hw : w = x <;> simp [hw]
    · rw [List.filter_cons_of_pos (by simp [hx]), lookup_cons, lookup_cons, ih]
      by_cases hw : w = x <;> simp [hw, hx]

theorem mem_iff_lookup {l : List (Nat × Nat)} (h : (l.map Prod.fst).Nodup) (w k : Nat) :
    (w, k) ∈ l ↔ l.lookup w = some k := by
  induction l with
  | nil => simp
  | cons p rest ih =>
    obtain ⟨x, y⟩ := p
    obtain ⟨hx, hrest⟩ := List.nodup_cons.mp h
    rw [List.mem_cons, ih hrest, lookup_cons, Prod.mk.injEq]
    by_cases hw : w = x
    · subst hw
      have hout : rest.lookup w ≠ some k := by
        intro hk
        exact hx (List.mem_map.mpr ⟨(w, k), (ih hrest).mpr hk, rfl⟩)
      simp [hout, eq_comm]
    · simp [hw]

end Token

/-- Whether the token was cancelled, and who waits for that. -/
structure Token where
  cancelled : Bool := false
  /-- Every waiter that was polled before the cancellation, with the waker of its last poll, in the
  order of the first polls. -/
  waiting : List (Nat × Nat) := []
  nodup : (waiting.map Prod.fst).Nodup := by exact List.nodup_nil
  deriving DecidableEq, Repr

instance : CancellationToken Token where
  fresh := {}
  isCancelled := Token.cancelled
  waker? t w := t.waiting.lookup w
  cancel t := if t.cancelled then ([], t) else (t.waiting.map (·.2), { cancelled := true })
  poll waiter waker t :=
    if t.cancelled then (true, t)
    else (false, { t with
      waiting := Token.enlist waiter waker t.waiting
      nodup := Token.nodup_enlist waiter waker t.nodup })
  leave waiter t := { t with
    waiting := t.waiting.filter (·.1 != waiter)
    nodup := t.nodup.sublist (List.filter_sublist.map Prod.fst) }

instance : LawfulToken Token where
  isCancelled_fresh := rfl
  waker?_fresh _ := rfl
  isCancelled_cancel t := by
    simp only [CancellationToken.cancel, CancellationToken.isCancelled]
    split
    · assumption
    · rfl
  woken_cancel t h := by
    have hclear : t.cancelled = false := h
    refine ⟨t.waiting, t.nodup, ?_, Token.mem_iff_lookup t.nodup⟩
    simp [CancellationToken.cancel, hclear]
  fst_poll waiter waker t := by
    simp only [CancellationToken.poll, CancellationToken.isCancelled]
    split <;> simp_all
  isCancelled_poll waiter waker t := by
    simp only [CancellationToken.poll, CancellationToken.isCancelled]
    split <;> rfl
  waker?_poll waiter waker t w h := by
    have hclear : t.cancelled = false := h
    simp [CancellationToken.poll, CancellationToken.waker?, hclear, Token.lookup_enlist]
  isCancelled_leave _ _ := rfl
  waker?_leave waiter t w := Token.lookup_filter waiter w t.waiting

end RequestScheduler
