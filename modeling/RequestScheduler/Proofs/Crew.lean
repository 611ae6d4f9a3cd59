import RequestScheduler.Slot.Script
import RequestScheduler.Proofs.Drain

/-!
# Crews

A crew is a number of threads at work on one machine. Every thread has a list of its own of what it
is still to do: what an item leaves comes in front of the other items of the same thread, and
between any two items of a thread the others may go on. A thread that has nothing to do may begin a
move. So a submission, a cancellation or a callback of one thread may come between the parts of
those of another.

What the moves are is left open. A manager's crew makes the moves of a machine (`Machine.Move`); the
slots of `Slot.Move` are made and driven by hand, as the scripts do it. A machine is a crew of one
(`History.of_reachable`), and so is every state of a script for slots (`Slot.history_run`).
-/

namespace RequestScheduler

/-- A machine and what each thread is still to do. The machine's own list of work is that of the
thread that went last. -/
structure Crew (D : Type) where
  machine : Machine D
  threads : List (List (Work D))

namespace Crew

open Machine

variable {D M : Type}

/-- The machine as a thread finds it that has this to do. -/
def seen (work : List (Work D)) (c : Crew D) : Machine D := { c.machine with work }

/-- A thread has led to this machine. -/
def put (k : Nat) (t : Machine D) (c : Crew D) : Crew D where
  machine := t
  threads := c.threads.set k t.work

/-- A number of threads that have nothing to do. -/
def start (permits : Option Permits) (n : Nat) : Crew D where
  machine := .start permits
  threads := List.replicate n []

/-- A single thread. -/
def single (s : Machine D) : Crew D where
  machine := s
  threads := [s.work]

/-- One step of one thread, with the move that it makes, if it makes one. -/
inductive Step (begin : M → Machine D → Machine D) (c : Crew D) : List M → Crew D → Prop
  | work {k : Nat} {w : Work D} {rest : List (Work D)} (h : c.threads[k]? = some (w :: rest)) :
      Step begin c [] (c.put k (exec w (c.seen rest)))
  | move {k : Nat} (m : M) (h : c.threads[k]? = some []) :
      Step begin c [m] (c.put k (begin m (c.seen [])))

/-- The crews that a number of threads can come to, with the moves that were made, the latest
first. -/
inductive History (begin : M → Machine D → Machine D) (permits : Option Permits) (n : Nat) :
    List M → Crew D → Prop
  | start : History begin permits n [] (start permits n)
  | next {past ms : List M} {c d : Crew D} (h : History begin permits n past c)
      (hs : Step begin c ms d) : History begin permits n (ms ++ past) d

/-- A thread takes its next step: it carries out a work item, or makes a move if it is given one.
What is not possible changes nothing. -/
def act (begin : M → Machine D → Machine D) (k : Nat) (m : Option M) (c : Crew D) : Crew D :=
  match m, c.threads[k]? with
  | none, some (w :: rest) => c.put k (exec w (c.seen rest))
  | some m, some [] => c.put k (begin m (c.seen []))
  | _, _ => c

/-- Threads take their steps in a given order. -/
def play (begin : M → Machine D → Machine D) (l : List (Nat × Option M)) (c : Crew D) : Crew D :=
  l.foldl (fun c a => c.act begin a.1 a.2) c

/-- Some thread is to do this. -/
def Todo (c : Crew D) (w : Work D) : Prop := ∃ l ∈ c.threads, w ∈ l

variable {begin : M → Machine D → Machine D} {permits : Option Permits} {n : Nat} {past : List M}
  {s t : Machine D} {c d : Crew D}

section Set

variable {k : Nat} {w : Work D} {done items rest : List (Work D)}
  (hc : c.threads[k]? = some (done ++ rest)) (hd : d.threads = c.threads.set k (items ++ rest))

include hc hd

/-- What is to be done when a thread has gone on was to be done before, or the thread came to it. -/
theorem Todo.cases_of_set (hw : d.Todo w) : c.Todo w ∨ w ∈ items := by
  obtain ⟨l, hl, hw⟩ := hw
  obtain hl | rfl := List.mem_or_eq_of_mem_set (hd ▸ hl)
  · exact .inl ⟨l, hl, hw⟩
  · obtain hw | hw := List.mem_append.mp hw
    · exact .inr hw
    · exact .inl ⟨_, List.mem_of_getElem? hc, List.mem_append_right _ hw⟩

/-- What was to be done is to be done still, or the thread that has gone on has done it. -/
theorem Todo.of_set (hw : c.Todo w) : d.Todo w ∨ w ∈ done := by
  have hk := (List.getElem?_eq_some_iff.mp hc).1
  obtain ⟨l, hl, hw⟩ := hw
  obtain ⟨j, hj⟩ := List.getElem?_of_mem hl
  by_cases hkj : k = j
  · subst hkj
    obtain rfl := Option.some.inj (hc.symm.trans hj)
    obtain hw | hw := List.mem_append.mp hw
    · exact .inr hw
    · exact .inl ⟨_, hd ▸ List.mem_set hk _, List.mem_append_right _ hw⟩
  · have hj : d.threads[j]? = some l := by rw [hd, List.getElem?_set_ne hkj, hj]
    exact .inl ⟨l, List.mem_of_getElem? hj, hw⟩

end Set

/-- What each thread of a crew of one finds is the machine. -/
theorem seen_single (s : Machine D) : (single s).seen s.work = s := rfl

namespace History

/-- What threads do in a given order makes a history, and only the given moves are made. -/
theorem play (l : List (Nat × Option M)) (h : History begin permits n past c) :
    ∃ new, History begin permits n (new ++ past) (c.play begin l) ∧
      ∀ m ∈ new, ∃ k, (k, some m) ∈ l := by
  induction l generalizing c past with
  | nil => exact ⟨[], h, List.forall_mem_nil _⟩
  | cons a l ih =>
      obtain ⟨k, m⟩ := a
      have later {ms : List M} (hs : History begin permits n (ms ++ past) (c.act begin k m))
          (hms : ∀ v ∈ ms, m = some v) : ∃ new, History begin permits n (new ++ past)
            (c.play begin ((k, m) :: l)) ∧ ∀ v ∈ new, ∃ k', (k', some v) ∈ (k, m) :: l := by
        obtain ⟨new, hnew, hin⟩ := ih hs
        refine ⟨new ++ ms, by rwa [List.append_assoc], fun v hv => ?_⟩
        obtain hv | hv := List.mem_append.mp hv
        · exact (hin v hv).imp fun _ => List.mem_cons_of_mem _
        · exact ⟨k, hms v hv ▸ List.mem_cons_self⟩
      unfold act at later
      split at later
      · rename_i hk
        exact later (h.next (.work hk)) (List.forall_mem_nil _)
      · rename_i hk
        exact later (h.next (.move _ hk)) (by simp)
      · exact @later [] h (List.forall_mem_nil _)

/-- A single thread carries out its next work item. -/
theorem work_single (h : History begin permits 1 past (single s)) (hs : s.step? = some t) :
    History begin permits 1 past (single t) := by
  obtain ⟨w, rest, hw, rfl⟩ := exists_of_step? hs
  exact h.next (.work (k := 0) (by simp [single, hw]))

/-- A single thread that has nothing to do makes a move. -/
theorem move_single (h : History begin permits 1 past (single s)) (m : M) (hw : s.work = []) :
    History begin permits 1 (m :: past) (single (begin m s)) := by
  have hseen : (single s).seen [] = s := hw ▸ seen_single s
  have := h.next (.move (k := 0) m (by simp [single, hw]))
  rwa [hseen] at this

/-- A single thread finishes what it is to do. -/
theorem drain_single (s : Machine D) (h : History begin permits 1 past (single s)) :
    History begin permits 1 past (single s.drain) := by
  rw [drain]
  split
  · exact h
  · rename_i t hs
    have : t.Below s := step?_below hs
    exact drain_single t (h.work_single hs)
termination_by (s.text, s.load)
decreasing_by exact this.lex

/-- A machine is a crew of one. -/
theorem of_reachable (h : Reachable permits s) :
    ∃ past, History Move.begin permits 1 past (single s) := by
  induction h with
  | refl => exact ⟨[], .start⟩
  | tail _ hs ih =>
      obtain ⟨past, hpast⟩ := ih
      cases hs with
      | work hs => exact ⟨past, hpast.work_single hs⟩
      | move m hw => exact ⟨m :: past, hpast.move_single m hw⟩

end History

end Crew

namespace Slot

open Machine Crew

variable {D : Type}

/-- What can come to a machine whose slots are made and driven by hand: all that comes to a
manager's, and what the scripts for slots do. -/
inductive Move (D : Type) where
  | make (kind : Kind) (job : Job D)
  | dispatch (id : Nat)
  | cancel (id : Nat)
  /-- Sets the flag of the slot's indicator. -/
  | trip (id : Nat)
  /-- Dispatches a slot when others have vacated. -/
  | chain (id : Nat) (on : List Nat)
  | closePermits
  | admitRead (id : Nat)
  | admitWrite (id : Nat)
  /-- A sequence number is used up. -/
  | nextSeq
  | reject
  /-- The record forgets the requests that have vacated. -/
  | prune
  | close
  | machine (m : Machine.Move D)

/-- The machine when a move has come to it and nothing was carried out yet. -/
def Move.begin : Move D → Machine D → Machine D
  | .make kind job, s => s.newSlot kind job
  | .dispatch id, s => s.push [.dispatch id]
  | .cancel id, s => if (s.entries[id]?).isSome then s.push [.cancelSlot id] else s
  | .trip id, s => s.trip id
  | .chain id on, s => s.push [.chain id on]
  | .closePermits, s => s.closePermits
  | .admitRead id, s =>
    if (s.entries[id]?).isSome then
      { s with admission := (s.admission.admitRead s.vacated id).2 } else s
  | .admitWrite id, s =>
    if (s.entries[id]?).isSome then
      { s with admission := (s.admission.admitWrite s.vacated id).2 } else s
  | .nextSeq, s => { s with admission := s.admission.nextSeq.2 }
  | .reject, s => { s with admission := s.admission.reject }
  | .prune, s => { s with admission := s.admission.prune s.vacated }
  | .close, s => { s with admission := (s.admission.close s.vacated).2 }
  | .machine m, s => m.begin s

/-- The moves of a single thread have led to this machine, and it is at rest. -/
def Attained (permits : Option Permits) (s : Machine D) : Prop :=
  (∃ past, History Move.begin permits 1 past (single s)) ∧ s.work = []

variable {permits : Option Permits} {s : Machine D}

/-- A move that leaves nothing to be done. -/
theorem Attained.move (h : Attained permits s) (m : Move D) (hm : (m.begin s).work = s.work) :
    Attained permits (m.begin s) := by
  obtain ⟨⟨past, hpast⟩, hw⟩ := h
  exact ⟨⟨_, hpast.move_single m hw⟩, hm.trans hw⟩

/-- A move with all that it sets off. -/
theorem Attained.apply (h : Attained permits s) (m : Move D) :
    Attained permits (m.begin s).drain := by
  obtain ⟨⟨past, hpast⟩, hw⟩ := h
  exact ⟨⟨_, (hpast.move_single m hw).drain_single⟩, work_drain _⟩

/-- Within a turn, work comes before polls. -/
theorem step_or_poll {t : Machine D} (h : (s.step? <|> s.pollNext?) = some t) :
    s.step? = some t ∨ s.work = [] ∧ s.pollNext? = some t := by
  cases hs : s.step? with
  | some u =>
      rw [hs] at h
      exact .inl h
  | none =>
      rw [hs] at h
      exact .inr ⟨step?_eq_none_iff.mp hs, h⟩

/-- A single thread polls the task that comes first. -/
theorem history_pollNext? {past : List (Move D)} {t : Machine D}
    (h : History Move.begin permits 1 past (single s)) (hw : s.work = [])
    (hp : s.pollNext? = some t) : ∃ past, History Move.begin permits 1 past (single t) := by
  unfold pollNext? at hp
  split at hp
  · cases hp
  · rename_i id rest hn
    obtain rfl := Option.some.inj hp
    have := h.move_single (.machine (.poll id)) hw
    simp only [Move.begin, Machine.Move.begin, Agenda.pick?_of_next? hn] at this
    exact ⟨_, this⟩

/-- The runtime polls until no task is ready. -/
theorem attained_turn (s : Machine D)
    (h : ∃ past, History Move.begin permits 1 past (single s)) : Attained permits s.turn := by
  obtain ⟨past, hpast⟩ := h
  rw [turn]
  split
  · rename_i hn
    have hw : s.work = [] := by
      cases hs : s.step? with
      | some u => simp [hs] at hn
      | none => exact step?_eq_none_iff.mp hs
    exact ⟨⟨_, hpast.move_single (.machine .pause) hw⟩, hw⟩
  · rename_i t ht
    have hcases := step_or_poll ht
    have : t.Below s := hcases.elim step?_below fun h => pollNext?_below h.2
    obtain hs | ⟨hw, hp⟩ := hcases
    · exact attained_turn t ⟨_, hpast.work_single hs⟩
    · exact attained_turn t (history_pollNext? hpast hw hp)
termination_by (s.text, s.load)
decreasing_by all_goals exact this.lex

theorem attained_onSlot {id : Nat} {f : Entry D → Answer × Machine D} (h : Attained permits s)
    (hf : ∀ e, s.entries[id]? = some e → Attained permits (f e).2) :
    Attained permits (onSlot id s f).2 := by
  unfold onSlot
  split
  · exact h
  · exact hf _ ‹_›

/-- What a step of a script asks of the machine is a sequence of moves. -/
theorem attained_perform (st : Step D) (h : Attained permits s) :
    Attained permits (perform st s).2 := by
  cases st with
  | slot kind job => exact h.move (.make kind job) rfl
  | admitRead id =>
      refine attained_onSlot h fun e he => ?_
      have := h.move (.admitRead id) (by simp [Move.begin, he])
      simp only [Move.begin, he, Option.isSome_some, ↓reduceIte] at this
      dsimp only
      split <;> exact this
  | admitWrite id =>
      refine attained_onSlot h fun e he => ?_
      have := h.move (.admitWrite id) (by simp [Move.begin, he])
      simpa only [Move.begin, he, Option.isSome_some, ↓reduceIte] using this
  | dispatch id => exact attained_onSlot h fun _ _ => h.apply (.dispatch id)
  | cancel id =>
      refine attained_onSlot h fun e he => ?_
      have := h.apply (.cancel id)
      simp only [Move.begin, he, Option.isSome_some, ↓reduceIte] at this
      exact this
  | futureCancel id =>
      refine attained_onSlot h fun e he => ?_
      have := h.apply (.machine (.cancel id))
      simp only [Move.begin, Machine.Move.begin, he, Option.isSome_some, ↓reduceIte] at this
      exact this
  | trip id => exact attained_onSlot h fun _ _ => h.move (.trip id) (work_trip id s)
  | release id =>
      exact attained_onSlot h fun _ _ => h.move (.machine (.release id)) (work_releaseJob id s)
  | chain id on =>
      refine attained_onSlot h fun _ _ => ?_
      split
      · exact h.apply (.chain id on)
      · exact h
  | nextSeq => exact h.move .nextSeq rfl
  | reject => exact h.move .reject rfl
  | isClosed => exact h
  | outstanding => exact h.move .prune rfl
  | close => exact h.move .close rfl
  | snapshot => exact h.move .prune rfl
  | closePermits =>
      unfold perform
      dsimp only
      split
      · exact h
      · rename_i p hp
        refine h.move .closePermits ?_
        simp only [Move.begin, Machine.closePermits, hp]
  | available =>
      unfold perform
      dsimp only
      split <;> exact h
  | run =>
      unfold perform
      dsimp only
      split
      · exact attained_turn s h.1
      · exact h
  | dropRuntime =>
      unfold perform
      dsimp only
      split
      · rename_i hl
        have := h.apply (.machine (.lose s.aliveTasks))
        simpa [Move.begin, Machine.Move.begin, hl, dropRuntime, dropTasks] using this
      · exact h
  | unknown => exact h

/-- Every state of a script is one that a single thread can come to. -/
theorem history_run (l : List (Step D)) (h : Attained permits s) :
    Attained permits (run l s).2 := by
  induction l generalizing s with
  | nil => exact h
  | cons st l ih => exact ih (attained_perform st h)

end Slot

end RequestScheduler
