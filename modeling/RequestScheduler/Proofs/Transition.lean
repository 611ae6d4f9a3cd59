import Mathlib.Logic.Relation
import RequestScheduler.Manager.Script
import RequestScheduler.Places

/-!
# Runs of a machine

A machine at rest is moved from outside: a client calls an operation, the runtime polls a task that
is ready, a callback begins or goes on, or the runtime goes away. A machine that is not at rest
carries out one work item after the other. A run is any sequence of such steps, so the states of a
run include those in the middle of an operation; between two moves everything that the first one
set off is finished.

Nothing is assumed about the order in which tasks are polled or in which callbacks go on, and a
parked callback may go on at any time. The first-in first-out executor of the scripts is one such
run (`Manager.State.reaches_run`).
-/

namespace RequestScheduler

/-- Whether the callback has been called. -/
def Callback.hasBegun {D : Type} : Callback D → Bool
  | .held _ | .offered _ | .dropped => false
  | _ => true

/-- The agenda while a given ready task is polled, if the task is ready. -/
def Agenda.pick? (task : Nat) (a : Agenda) : Option Agenda :=
  if task ∈ a.own then some { a with own := a.own.erase task, polling := true }
  else if task ∈ a.arrived then some { a with arrived := a.arrived.erase task, polling := true }
  else none

/-- The task that comes first in the queues is one of those that can be picked. -/
theorem Agenda.pick?_of_next? {a b : Agenda} {task : Nat} (h : a.next? = some (task, b)) :
    a.pick? task = some b := by
  obtain ⟨own, arrived, polling⟩ := a
  cases own with
  | cons x own =>
      obtain ⟨rfl, rfl⟩ := Prod.mk.inj (Option.some.inj h)
      simp [pick?]
  | nil =>
      cases arrived with
      | cons y arrived =>
          obtain ⟨rfl, rfl⟩ := Prod.mk.inj (Option.some.inj h)
          simp [pick?]
      | nil => cases h

namespace Machine

variable {D : Type}

/-- What can come to a machine that is at rest. -/
inductive Move (D : Type) where
  | submit (kind : Kind) (body : Body D)
  /-- The consumer of a request cancels it. -/
  | cancel (id : Nat)
  | cancelAll
  | snapshot
  | onSettled (id : Nat) (tag : D) (effects : List (Effect D))
  /-- Client code with these actions runs, on any thread. -/
  | effects (es : List (Effect D))
  /-- Admission is closed, and what is outstanding is cancelled. -/
  | shutdown
  /-- The wait of a shutdown for these slots is over. -/
  | report (ids : List Nat) (timeoutMs : UInt64)
  /-- Whoever was handed the indicator of a request that has begun sets its flag. -/
  | trip (id : Nat)
  | awaitRequest (id waker : Nat)
  | takeOutcome (id : Nat)
  | dropFuture (id : Nat)
  /-- A parked callback is allowed to go on. -/
  | release (id : Nat)
  /-- The runtime polls a task that is ready. -/
  | poll (id : Nat)
  /-- A callback that was handed over begins, or a parked one goes on. -/
  | advance (id : Nat)
  | pause
  /-- The runtime goes away and drops its tasks in this order. -/
  | lose (tasks : List Nat)
  deriving Repr

/-- Whether the callback of a request has been called. -/
def hasBegun (s : Machine D) (id : Nat) : Bool :=
  match s.entries[id]? with
  | some e => e.callback.hasBegun
  | none => false

/-- The first half of a shutdown, with the cancellations still to be carried out. -/
def closeDown (s : Machine D) : Machine D :=
  let (ids, admission) := s.admission.close s.vacated
  ({ s with admission }.closePermits.note (.shutdown ids.length)).push (ids.map .cancelSlot)

/-- The machine when a move has come to it and nothing was carried out yet. A move that is not
possible changes nothing. -/
def Move.begin : Move D → Machine D → Machine D
  | .submit kind body, s => s.submit kind body []
  | .cancel id, s => if (s.entries[id]?).isSome then s.cancelThen id [] else s
  | .cancelAll, s => s.cancelAll []
  | .snapshot, s => s.snapshot.2
  | .onSettled id tag es, s => s.onSettled id tag es []
  | .effects es, s => s.push (es.map .perform)
  | .shutdown, s => s.closeDown
  | .report ids timeoutMs, s => (s.finishShutdown ids timeoutMs).2
  | .trip id, s => if s.hasBegun id then s.trip id else s
  | .awaitRequest id waker, s => s.awaitRequest id waker
  | .takeOutcome id, s => s.takeOutcome id
  | .dropFuture id, s => s.dropFuture id
  | .release id, s => s.releaseJob id
  | .poll id, s =>
    match s.ready.pick? id with
    | none => s
    | some rest => Machine.poll id { s with ready := rest }
  | .advance id, s => s.advance id
  | .pause, s => s.pause
  | .lose tasks, s =>
    if s.live ∧ tasks.Perm s.aliveTasks then
      { s with live := false, ready := {} }.push (tasks.map .endTask)
    else s

/-- One step: a work item is carried out, or a move comes to a machine at rest. -/
inductive Step : Machine D → Machine D → Prop
  | work {s t} (h : s.step? = some t) : Step s t
  | move {s} (m : Move D) (h : s.work = []) : Step s (m.begin s)

/-- Any number of steps. -/
abbrev Run : Machine D → Machine D → Prop := Relation.ReflTransGen Step

/-- The states of a manager, those in the middle of an operation included. -/
def Reachable (permits : Option Permits) (s : Machine D) : Prop := Run (start permits) s

variable {s t : Machine D}

theorem step?_eq_none_iff : s.step? = none ↔ s.work = [] := by
  unfold step?
  split <;> simp_all

/-- A step carries out the first work item. -/
theorem exists_of_step? (h : s.step? = some t) :
    ∃ w rest, s.work = w :: rest ∧ t = exec w { s with work := rest } := by
  unfold step? at h
  split at h
  · cases h
  · rename_i w rest hw
    exact ⟨w, rest, hw, (Option.some.inj h).symm⟩

theorem run_drain (s : Machine D) : Run s s.drain := by
  rw [drain]
  split
  · exact .refl
  · rename_i t h
    have : t.Below s := step?_below h
    exact .head (.work h) (run_drain t)
termination_by (s.text, s.load)
decreasing_by exact this.lex

/-- Carries out `n` work items, or all if there are fewer. -/
def steps : Nat → Machine D → Machine D
  | 0, s => s
  | n + 1, s =>
    match s.step? with
    | none => s
    | some t => t.steps n

theorem run_steps (n : Nat) (s : Machine D) : Run s (s.steps n) := by
  induction n generalizing s with
  | zero => exact .refl
  | succ n ih =>
      unfold steps
      split
      · exact .refl
      · rename_i t h
        exact .head (.work h) (ih t)

/-- As many steps as leave nothing to be done are what draining does. -/
theorem drain_eq_steps (n : Nat) (s : Machine D) (h : (s.steps n).work = []) :
    s.drain = s.steps n := by
  induction n generalizing s with
  | zero => exact drain_of_atRest h
  | succ n ih =>
      unfold steps at h ⊢
      split
      · rename_i hs
        exact drain_of_atRest (step?_eq_none_iff.mp hs)
      · rename_i t hs
        rw [hs] at h
        exact (drain_of_step? hs).trans (ih t h)

/-- Draining takes a number of steps. -/
theorem exists_steps_eq_drain (s : Machine D) : ∃ n, s.steps n = s.drain := by
  cases hs : s.step? with
  | none => exact ⟨0, (drain_of_atRest (step?_eq_none_iff.mp hs)).symm⟩
  | some t =>
      have : t.Below s := step?_below hs
      obtain ⟨n, hn⟩ := exists_steps_eq_drain t
      refine ⟨n + 1, ?_⟩
      rw [steps, hs, drain_of_step? hs]
      exact hn
termination_by (s.text, s.load)
decreasing_by exact this.lex

/-- What holds at first and goes on to hold while work is done holds when all is done. -/
theorem drain_induction {p : Machine D → Prop} (s : Machine D) (hp : p s)
    (hstep : ∀ {u v : Machine D}, u.step? = some v → p u → p v) : p s.drain := by
  cases hs : s.step? with
  | none => rwa [drain_of_atRest (step?_eq_none_iff.mp hs)]
  | some t =>
      have : t.Below s := step?_below hs
      rw [drain_of_step? hs]
      exact drain_induction t (hstep hs hp) hstep
termination_by (s.text, s.load)
decreasing_by exact this.lex

/-- A move, with everything that it sets off. -/
def Move.apply (m : Move D) (s : Machine D) : Machine D := (m.begin s).drain

theorem run_apply (m : Move D) (h : s.work = []) : Run s (m.apply s) :=
  .head (.move m h) (run_drain _)

/-- Moves that come one after the other, each to a machine at rest, with up to `n` work items
carried out after each of them. -/
def play (n : Nat) : List (Move D) → Machine D → Machine D
  | [], s => s
  | m :: ms, s => if s.work.isEmpty then ((m.begin s).steps n).play n ms else s

theorem run_play (n : Nat) (ms : List (Move D)) (s : Machine D) : Run s (s.play n ms) := by
  induction ms generalizing s with
  | nil => exact .refl
  | cons m ms ih =>
      unfold play
      split
      · rename_i h
        exact .head (.move m (List.isEmpty_iff.mp h)) ((run_steps n _).trans (ih _))
      · exact .refl

@[simp] theorem work_apply (m : Move D) (s : Machine D) : (m.apply s).work = [] := work_drain _

/-- What happens next by itself is one step. -/
theorem step_of_next? (h : s.next? = some t) : Step s t := by
  unfold next? at h
  cases hs : s.step? with
  | some u =>
      rw [hs] at h
      exact .work (hs.trans h)
  | none =>
      have hw : s.work = [] := step?_eq_none_iff.mp hs
      rw [hs] at h
      cases hp : s.pollNext? with
      | some u =>
          rw [hp] at h
          obtain rfl := Option.some.inj h
          unfold pollNext? at hp
          split at hp
          · cases hp
          · rename_i id rest hn
            obtain rfl := Option.some.inj hp
            have := Step.move (.poll id) hw
            simpa only [Move.begin, Agenda.pick?_of_next? hn] using this
      | none =>
          rw [hp] at h
          obtain ⟨id, _, rfl⟩ := Option.map_eq_some_iff.mp h
          exact .move (.advance id) hw

/-- One machine leads to another, which is at rest. -/
def Reaches (s t : Machine D) : Prop := Run s t ∧ t.work = []

theorem Reaches.trans {u : Machine D} (h₁ : Reaches s t) (h₂ : Reaches t u) : Reaches s u :=
  ⟨h₁.1.trans h₂.1, h₂.2⟩

theorem Reaches.refl (h : s.work = []) : Reaches s s := ⟨.refl, h⟩

theorem reaches_apply (m : Move D) (h : s.work = []) : Reaches s (m.apply s) :=
  ⟨run_apply m h, work_apply m s⟩

/-- A move that leaves nothing to be done. -/
theorem reaches_begin (m : Move D) (h : s.work = []) (hm : (m.begin s).work = s.work) :
    Reaches s (m.begin s) := ⟨.single (.move m h), hm.trans h⟩

/-- A machine that goes on by itself makes steps, and is at rest in the end. -/
theorem reaches_pump (s : Machine D) : Reaches s s.pump := by
  rw [pump]
  split
  · rename_i h
    have hw : s.work = [] := by
      unfold next? at h
      cases hs : s.step? with
      | some u => simp [hs] at h
      | none => exact step?_eq_none_iff.mp hs
    exact ⟨.single (.move .pause hw), hw⟩
  · rename_i t h
    have : t.Below s := next?_below h
    obtain ⟨hrun, hrest⟩ := reaches_pump t
    exact ⟨.head (step_of_next? h) hrun, hrest⟩
termination_by (s.text, s.load)
decreasing_by exact this.lex

@[simp] theorem work_modify (id : Nat) (f : Entry D → Entry D) (s : Machine D) :
    (s.modify id f).work = s.work := by
  unfold modify
  split <;> rfl

@[simp] theorem work_releaseJob (id : Nat) (s : Machine D) : (s.releaseJob id).work = s.work := by
  unfold releaseJob
  repeat' split
  all_goals rfl

end Machine

namespace Manager.State

variable {D : Type} {s : State D}

open Machine

theorem reaches_onFuture {id : Nat} {f : Entry D → Answer D × Machine D}
    (h : s.machine.work = [])
    (hf : ∀ e, s.machine.entries[id]? = some e → Reaches s.machine (f e).2) :
    Reaches s.machine (s.onFuture id f).2 := by
  unfold onFuture
  split
  · exact .refl h
  · rename_i e he
    exact hf e (Option.filter_eq_some_iff.mp he).1

/-- What a step of a script asks of the machine is a sequence of moves. -/
theorem reaches_perform (st : Step D) (h : s.machine.work = []) :
    Reaches s.machine (s.perform st).2 := by
  cases st with
  | submit kind body => exact reaches_apply (.submit kind body) h
  | finish id =>
      unfold perform
      dsimp only
      split
      · exact reaches_begin (.release id) h (work_releaseJob id _)
      · exact .refl h
  | cancel id =>
      apply reaches_onFuture h
      intro e he
      have := reaches_apply (.cancel id) h
      simpa [Move.apply, Move.begin, he, cancelNow] using this
  | cancelAll => exact reaches_apply .cancelAll h
  | snapshot => exact reaches_begin .snapshot h rfl
  | debug => exact reaches_begin .snapshot h rfl
  | onSettled id tag es =>
      exact reaches_onFuture h fun _ _ => reaches_apply (.onSettled id tag es) h
  | waitTimeout id => exact reaches_onFuture h fun _ _ => .refl h
  | join id =>
      apply reaches_onFuture h
      intro e _
      have drop {m : Machine D} (hm : m.work = []) : Reaches m (m.dropFuture id) :=
        reaches_begin (.dropFuture id) hm (work_modify id _ m)
      have take : Reaches s.machine (s.machine.takeOutcome id) :=
        reaches_begin (.takeOutcome id) h (work_modify id _ _)
      repeat' split
      · exact take.trans (drop take.2)
      · exact drop h
      · exact .refl h
  | poll id waker =>
      apply reaches_onFuture h
      intro e _
      repeat' split
      · exact reaches_begin (.takeOutcome id) h (work_modify id _ _)
      · exact .refl h
      · exact reaches_begin (.awaitRequest id waker) h (work_modify id _ _)
  | dropFuture id =>
      unfold perform
      dsimp only
      split
      · exact .refl h
      · exact reaches_begin (.dropFuture id) h (work_modify id _ _)
  | effects es => exact reaches_apply (.effects es) h
  | shutdownBlocking =>
      have closed : Reaches s.machine s.machine.beginShutdown.2 := reaches_apply .shutdown h
      exact closed.trans (reaches_begin (.report _ _) closed.2 rfl)
  | shutdown =>
      unfold perform
      dsimp only
      split
      · have closed : Reaches s.machine s.machine.beginShutdown.2 := reaches_apply .shutdown h
        have pumped := closed.trans (reaches_pump _)
        exact pumped.trans (reaches_begin (.report _ _) pumped.2 rfl)
      · exact .refl h
  | dropRuntime =>
      unfold perform
      dsimp only
      split
      · rename_i hl
        have := reaches_apply (.lose s.machine.aliveTasks) h
        simpa [Move.apply, Move.begin, hl, dropRuntime, dropTasks] using this
      · exact .refl h
  | isShutDown => exact .refl h
  | config => exact .refl h
  | pump => exact .refl h
  | unknown => exact .refl h

/-- A script leads a manager through reachable states only, and leaves it at rest. -/
theorem reaches_run (l : List (Step D × Bool)) (h : s.machine.work = []) :
    Reaches s.machine (s.run l).2.machine := by
  induction l generalizing s with
  | nil => exact .refl h
  | cons p rest ih =>
      obtain ⟨st, isLazy⟩ := p
      have hstep : Reaches s.machine (s.step st isLazy).2.machine := by
        have hp := reaches_perform st h
        unfold step
        dsimp only
        split
        · exact hp
        · exact hp.trans (reaches_pump _)
      exact hstep.trans (ih hstep.2)

end Manager.State

end RequestScheduler
