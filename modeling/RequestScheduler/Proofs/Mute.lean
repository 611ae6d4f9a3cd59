import RequestScheduler.Proofs.Sound
import RequestScheduler.Proofs.Transition

/-!
# Muted machines

What a callback returns is the last part of its program, and nothing reads it before the callback
has returned. A muted machine is one in which every such result is struck out, also those of
callbacks that are yet to be submitted, and those that were returned and not published. Muting
commutes with every operation of a machine and so with every work item (`mute_exec`), and draining
a machine drains the muted one (`mute_drain`). Log events are only ever put in front of others, so
that a muted machine may also have older ones.
-/

namespace RequestScheduler

section Programs

variable {D : Type}

mutual

/-- An action with the results of all nested callbacks struck out. -/
def Effect.mute : Effect D → Effect D
  | .submit kind mode pre post _ =>
    .submit kind mode (Effect.muteAll pre) (Effect.muteAll post) .nothing
  | .onSettled id tag effects => .onSettled id tag (Effect.muteAll effects)
  | e => e

def Effect.muteAll : List (Effect D) → List (Effect D)
  | [] => []
  | e :: es => e.mute :: Effect.muteAll es

end

@[simp] theorem Effect.muteAll_eq_map (es : List (Effect D)) : muteAll es = es.map mute := by
  induction es with
  | nil => rfl
  | cons e es ih => rw [muteAll, ih, List.map_cons]

/-- A callback that does the same and returns nothing. -/
def Body.mute (b : Body D) : Body D where
  mode := b.mode
  pre := b.pre.map Effect.mute
  post := b.post.map Effect.mute
  result := .nothing

def Job.mute : Job D → Job D
  | .callback body => .callback body.mute
  | job => job

def Callback.mute : Callback D → Callback D
  | .held job => .held job.mute
  | .offered body => .offered body.mute
  | .parked body => .parked body.mute
  | .returned _ => .returned (.ok .nothing)
  | c => c

def Continuation.mute : Continuation D → Continuation D
  | .react tag effects => .react tag (effects.map Effect.mute)
  | k => k

def Work.mute : Work D → Work D
  | .perform e => .perform e.mute
  | .run k => .run k.mute
  | .park id body => .park id body.mute
  | .finish id _ => .finish id .nothing
  | w => w

@[simp] theorem Work.mute_comp_perform :
    (Work.mute ∘ Work.perform : Effect D → Work D) = Work.perform ∘ Effect.mute := rfl

@[simp] theorem Callback.mute_close (c : Callback D) : c.close.mute = c.mute.close := by
  cases c <;> rfl

@[simp] theorem Callback.hasBegun_mute (c : Callback D) : c.mute.hasBegun = c.hasBegun := by
  cases c <;> rfl

end Programs

section Cells

variable {V W K L : Type} (f : K → L)

/-- Replaces the continuations of a request. -/
def Request.map (r : Request V W K) : Request V W L where
  cell := r.cell.map f
  tripped := r.tripped
  mirror := r.mirror
  mirrors := r.mirrors.trans (congrArg _ (Cell.value?_map f r.cell).symm)

@[simp] theorem Request.cell_map (r : Request V W K) : (r.map f).cell = r.cell.map f := rfl

@[simp] theorem Request.tripped_map (r : Request V W K) : (r.map f).tripped = r.tripped := rfl

@[simp] theorem Request.status_map (r : Request V W K) : (r.map f).status = r.status := rfl

@[simp] theorem Request.isSettled_map (r : Request V W K) : (r.map f).isSettled = r.isSettled :=
  Cell.isSettled_map f r.cell

@[simp] theorem Request.map_publish (o : Outcome V) (r : Request V W K) :
    (r.publish o).map f = (r.map f).publish o := by
  rcases r with ⟨_ | _, _, _, _⟩ <;> rfl

@[simp] theorem Request.map_register (k : K) (r : Request V W K) :
    (r.register k).map f = (r.map f).register (f k) := by
  simp [register, map]

@[simp] theorem Request.map_await [DecidableEq W] (w : W) (r : Request V W K) :
    (r.await w).map f = (r.map f).await w := by
  simp [await, map]

@[simp] theorem Request.map_take (r : Request V W K) : r.take.2.map f = (r.map f).take.2 := by
  simp [take, map]

end Cells

namespace Entry

variable {D : Type}

/-- A request with the results of its callback, and of those in its continuations, struck out. -/
def mute (e : Entry D) : Entry D :=
  { e with
    request := e.request.map Continuation.mute
    vacancy := e.vacancy.map Continuation.mute
    callback := e.callback.mute }

@[simp] theorem isVacated_mute (e : Entry D) : e.mute.isVacated = e.isVacated :=
  Cell.isSettled_map _ e.vacancy

@[simp] theorem isAlive_mute (e : Entry D) : e.mute.isAlive = e.isAlive := rfl

end Entry

namespace Machine

variable {D : Type} {i : Nat} {older : List TraceEvent}

/-- A machine with the results of all callbacks struck out, and with older log events. -/
def mute (older : List TraceEvent) (s : Machine D) : Machine D :=
  { s with
    entries := s.entries.map Entry.mute
    work := s.work.map Work.mute
    trace := s.trace ++ older }

theorem permits_mute (s : Machine D) : (s.mute older).permits = s.permits := rfl

theorem gates_mute (s : Machine D) : (s.mute older).gates = s.gates := rfl

theorem ready_mute (s : Machine D) : (s.mute older).ready = s.ready := rfl

theorem live_mute (s : Machine D) : (s.mute older).live = s.live := rfl

theorem work_mute (s : Machine D) : (s.mute older).work = s.work.map Work.mute := rfl

theorem getElem?_mute (s : Machine D) :
    (s.mute older).entries[i]? = s.entries[i]?.map Entry.mute :=
  List.getElem?_map

@[simp] theorem length_mute (s : Machine D) :
    (s.mute older).entries.length = s.entries.length :=
  List.length_map _

@[simp] theorem vacated_mute (s : Machine D) : (s.mute older).vacated = s.vacated := by
  funext i
  unfold vacated
  rw [getElem?_mute]
  cases s.entries[i]? with
  | none => rfl
  | some e => exact e.isVacated_mute

@[simp] theorem hasBegun_mute (s : Machine D) : (s.mute older).hasBegun = s.hasBegun := by
  funext i
  unfold hasBegun
  rw [getElem?_mute]
  cases s.entries[i]? with
  | none => rfl
  | some e => exact e.callback.hasBegun_mute

@[simp] theorem aliveTasks_mute (s : Machine D) : (s.mute older).aliveTasks = s.aliveTasks := by
  simp [aliveTasks, getElem?_mute, Function.comp_def]

@[simp] theorem isPending_mute (s : Machine D) : (s.mute older).isPending = s.isPending := by
  funext i
  unfold isPending
  rw [getElem?_mute]
  cases s.entries[i]? with
  | none => rfl
  | some e => exact congrArg not (Request.isSettled_map _ e.request)

@[simp] theorem held?_mute (s : Machine D) :
    (s.mute older).held? i = (s.held? i).map Entry.mute := by
  unfold held?
  rw [getElem?_mute]
  cases s.entries[i]? with
  | none => rfl
  | some e =>
      rw [Option.map_some, Option.filter_some, Option.filter_some]
      change (if e.future == .held then _ else _) = _
      split <;> rfl

@[simp] theorem mute_push (items : List (Work D)) (s : Machine D) :
    (s.push items).mute older = (s.mute older).push (items.map Work.mute) := by
  simp [push, mute]

@[simp] theorem mute_emit (e : Event D) (s : Machine D) :
    (s.emit e).mute older = (s.mute older).emit e := rfl

@[simp] theorem mute_note (t : TraceEvent) (s : Machine D) :
    (s.note t).mute older = (s.mute older).note t := rfl

@[simp] theorem mute_put (e : Entry D) (s : Machine D) :
    (s.put i e).mute older = (s.mute older).put i e.mute := by
  simp [put, mute, List.map_set]

@[simp] theorem mute_wakeTask (s : Machine D) :
    (s.wakeTask i).mute older = (s.mute older).wakeTask i := rfl

@[simp] theorem mute_pause (s : Machine D) : s.pause.mute older = (s.mute older).pause := rfl

/-! ### Operations -/

/-- What is done to an entry, if it is there, is done to the muted one. -/
theorem mute_settle (o : Outcome (Value D)) (s : Machine D) :
    (s.settle i o).mute older = (s.mute older).settle i o := by
  unfold settle
  rw [getElem?_mute]
  cases s.entries[i]? with
  | none => rfl
  | some e =>
      dsimp only [Option.map_some]
      by_cases hs : e.request.isSettled = true
      · simp [hs, Entry.mute]
      · simp [hs, Entry.mute, mute, List.map_set, Function.comp_def, Work.mute]

theorem mute_trip (s : Machine D) : (s.trip i).mute older = (s.mute older).trip i := by
  unfold trip
  rw [getElem?_mute]
  cases s.entries[i]? with
  | none => rfl
  | some e => exact mute_put _ s

theorem mute_cancelThen (after : List (Work D)) (s : Machine D) :
    (s.cancelThen i after).mute older = (s.mute older).cancelThen i (after.map Work.mute) := by
  simp [cancelThen, mute_trip, Work.mute]

theorem mute_openVacancy (after : List (Work D)) (s : Machine D) :
    (s.openVacancy i after).mute older = (s.mute older).openVacancy i (after.map Work.mute) := by
  unfold openVacancy
  rw [getElem?_mute]
  cases s.entries[i]? with
  | none => rfl
  | some e =>
      dsimp only [Option.map_some]
      by_cases hs : e.vacancy.isSettled = true
      · simp [hs, Entry.mute]
      · simp [hs, Entry.mute, mute, List.map_set, Function.comp_def, Work.mute]

theorem mute_skip (s : Machine D) : (s.skip i).mute older = (s.mute older).skip i := by
  unfold skip
  rw [getElem?_mute]
  cases s.entries[i]? with
  | none => rfl
  | some e =>
      dsimp only [Option.map_some]
      change _ = if e.stage = .queued then _ else _
      split
      · simp [Entry.mute, Callback.mute, Work.mute]
      · rfl

theorem mute_vacate (s : Machine D) : (s.vacate i).mute older = (s.mute older).vacate i := by
  unfold vacate
  rw [getElem?_mute]
  cases s.entries[i]? with
  | none => rfl
  | some e => simp [mute_openVacancy, Entry.mute, Work.mute]

theorem mute_dispatch (s : Machine D) :
    (s.dispatch i).mute older = (s.mute older).dispatch i := by
  unfold dispatch
  rw [getElem?_mute]
  cases s.entries[i]? with
  | none => rfl
  | some e =>
      dsimp only [Option.map_some]
      change _ = if e.stage = .queued then if e.request.tripped then _ else if s.live then _ else _
        else _
      repeat' split
      · exact mute_skip s
      · simp [Entry.mute]
      · simp [Entry.mute, Work.mute]
      · rfl

theorem mute_chain (dependencies : List Nat) (s : Machine D) :
    (s.chain i dependencies).mute older = (s.mute older).chain i dependencies := by
  simp [chain, mute, Function.comp_def, Work.mute]

theorem mute_await (gate : Nat) (s : Machine D) :
    (s.await gate i).mute older = (s.mute older).await gate i := by
  unfold await
  rw [getElem?_mute]
  cases s.entries[i]? with
  | none => rfl
  | some e =>
      dsimp only [Option.map_some]
      by_cases hs : e.vacancy.isSettled = true
      · simp [hs, Entry.mute, Work.mute]
      · simp [hs, Entry.mute, Continuation.mute]

theorem mute_release (gate : Nat) (s : Machine D) :
    (s.release gate).mute older = (s.mute older).release gate := by
  unfold release
  rw [gates_mute]
  cases s.gates[gate]? with
  | none => rfl
  | some g =>
      dsimp only
      by_cases hg : g.remaining = 1
      · simp [hg, mute, Work.mute]
      · simp [hg, mute]

theorem mute_hand (s : Machine D) : (s.hand i).mute older = (s.mute older).hand i := by
  unfold hand
  rw [getElem?_mute]
  cases s.entries[i]? with
  | none => rfl
  | some e =>
      dsimp only [Option.map_some]
      change _ = if e.task = .queueing then _ else _
      split
      · simp [Entry.mute]
      · rfl

theorem mute_putPermit (s : Machine D) :
    s.putPermit.mute older = (s.mute older).putPermit := by
  unfold putPermit
  rw [permits_mute]
  cases s.permits with
  | none => rfl
  | some p =>
      dsimp only
      rcases p.release with ⟨_ | next, p⟩
      · rfl
      · exact mute_hand _

/-- What becomes of the permit, or of the place in the queue for one, of a task that ends. -/
def surrender (kind : Kind) (task : Task) (id : Nat) (s : Machine D) : Machine D :=
  match kind, task with
  | .read, .working | .read, .handed => s.putPermit
  | .read, .queueing => { s with permits := s.permits.map (Permits.leave id) }
  | _, _ => s

theorem endTask_of_entry {s : Machine D} {e : Entry D} (he : s.entries[i]? = some e) :
    s.endTask i = (({ s with ready := s.ready.remove i }.put i
      { e with task := .ended, callback := e.callback.close }).surrender e.kind e.task i).push
        [.settle i (.error .cancelled), .vacate i] := by
  unfold endTask surrender
  rewrite [he]
  rfl

theorem mute_surrender (kind : Kind) (task : Task) (s : Machine D) :
    (s.surrender kind task i).mute older = (s.mute older).surrender kind task i := by
  unfold surrender
  split
  · exact mute_putPermit s
  · exact mute_putPermit s
  · rfl
  · rfl

theorem mute_endTask (s : Machine D) : (s.endTask i).mute older = (s.mute older).endTask i := by
  cases he : s.entries[i]? with
  | none =>
      unfold endTask
      rw [getElem?_mute, he]
      rfl
  | some e =>
      have hm : (s.mute older).entries[i]? = some e.mute := by
        rw [getElem?_mute, he, Option.map_some]
      rw [endTask_of_entry he, endTask_of_entry hm, mute_push, mute_surrender, mute_put]
      simp only [Entry.mute, Callback.mute_close]
      rfl

@[simp] theorem mute_refused (kind : Kind) : (Entry.refused kind : Entry D).mute = .refused kind :=
  rfl

@[simp] theorem mute_queued (kind : Kind) (seq : UInt64) (job : Job D) :
    (Entry.queued kind seq job).mute = .queued kind seq job.mute := rfl

/-- A submission takes the same decisions whatever its callback is going to return. -/
theorem mute_submit (kind : Kind) (body : Body D) (after : List (Work D)) (s : Machine D) :
    (s.submit kind body after).mute older =
      (s.mute older).submit kind body.mute (after.map Work.mute) := by
  unfold submit
  simp only [vacated_mute, length_mute]
  change _ = if s.admission.closed then _ else _
  split
  · simp [mute, Work.mute]
  · cases kind with
    | read =>
        dsimp only
        rcases hplan : s.admission.nextSeq.2.admitRead s.vacated s.entries.length
          with ⟨_ | write, admission⟩
        · simp [mute, hplan, Work.mute, Job.mute]
        · simp [mute, hplan, Work.mute, Job.mute]
    | write => simp [mute, Work.mute, Job.mute]

theorem mute_supersede (victim writer : Nat) (s : Machine D) :
    (s.supersede victim writer).mute older = (s.mute older).supersede victim writer := by
  unfold supersede
  rw [getElem?_mute, getElem?_mute]
  cases s.entries[victim]? with
  | none => rfl
  | some e =>
      cases s.entries[writer]? with
      | none => rfl
      | some w =>
          dsimp only [Option.map_some]
          rw [mute_cancelThen, List.map_cons]
          by_cases hs : e.request.isSettled = true
          · simp [hs, Entry.mute, Work.mute]
          · simp [hs, Entry.mute, Work.mute]

theorem mute_cancelEach (pending : List Nat) (total count : Nat) (s : Machine D) :
    (s.cancelEach pending total count).mute older =
      (s.mute older).cancelEach pending total count := by
  cases pending with
  | nil => rfl
  | cons id rest => simp [cancelEach, mute_cancelThen, Work.mute]

theorem outstanding_mute (s : Machine D) :
    (s.mute older).outstanding = (s.outstanding.1, s.outstanding.2.mute older) := by
  simp only [outstanding, vacated_mute]
  rfl

theorem snapshot_mute (s : Machine D) :
    (s.mute older).snapshot = (s.snapshot.1, s.snapshot.2.mute older) := by
  simp only [snapshot, vacated_mute]
  rfl

theorem mute_cancelAll (after : List (Work D)) (s : Machine D) :
    (s.cancelAll after).mute older = (s.mute older).cancelAll (after.map Work.mute) := by
  simp [cancelAll, outstanding_mute, Work.mute]

theorem mute_onSettled (tag : D) (effects : List (Effect D)) (after : List (Work D))
    (s : Machine D) : (s.onSettled i tag effects after).mute older =
      (s.mute older).onSettled i tag (effects.map Effect.mute) (after.map Work.mute) := by
  unfold onSettled
  rw [getElem?_mute]
  cases s.entries[i]? with
  | none => exact mute_push after s
  | some e =>
      dsimp only [Option.map_some]
      by_cases hs : e.request.isSettled = true
      · simp [hs, Entry.mute, Work.mute, Continuation.mute]
      · simp [hs, Entry.mute, Continuation.mute]

theorem mute_perform (e : Effect D) (s : Machine D) :
    (s.perform e).mute older = (s.mute older).perform e.mute := by
  cases e with
  | submit kind mode pre post result =>
      simp [perform, mute_submit, Effect.mute, Body.mute, Work.mute]
  | cancel id =>
      simp only [perform, Effect.mute, held?_mute]
      cases s.held? id with
      | none => rfl
      | some e => simp [mute_cancelThen, Work.mute, Entry.mute]
  | cancelAll => exact mute_cancelAll _ s
  | status id =>
      simp only [perform, Effect.mute, held?_mute]
      cases s.held? id <;> rfl
  | snapshot => simp [perform, Effect.mute, snapshot_mute]
  | onSettled id tag effects =>
      simp only [perform, Effect.mute, held?_mute]
      cases s.held? id with
      | none => rfl
      | some e => simp [mute_onSettled, Work.mute]
  | _ => rfl

theorem mute_run (k : Continuation D) (s : Machine D) :
    (s.run k).mute older = (s.mute older).run k.mute := by
  cases k with
  | release gate => exact mute_push _ s
  | react tag effects => simp [run, Continuation.mute, Function.comp_def, Work.mute]
  | announce e => rfl

theorem mute_handOver (s : Machine D) :
    (s.handOver i).mute older = (s.mute older).handOver i := by
  unfold handOver
  rw [getElem?_mute]
  cases s.entries[i]? with
  | none => rfl
  | some e => exact mute_put _ s

theorem mute_park (body : Body D) (s : Machine D) :
    (s.park i body).mute older = (s.mute older).park i body.mute := by
  unfold park
  rw [getElem?_mute]
  cases s.entries[i]? with
  | none => rfl
  | some e => exact mute_put _ s

/-- Only the result is told apart by a callback that returns it. -/
theorem mute_finish (result : Result D) (s : Machine D) :
    (s.finish i result).mute older = (s.mute older).finish i .nothing := by
  unfold finish
  rw [getElem?_mute]
  cases s.entries[i]? with
  | none => rfl
  | some e =>
      dsimp only [Option.map_some]
      change _ = if e.task = .working then _ else _
      split
      · simp [Entry.mute, Callback.mute, Result.outcome]
      · simp [Entry.mute, Callback.mute]

/-- Muting commutes with every work item. -/
theorem mute_exec (w : Work D) (s : Machine D) :
    (exec w s).mute older = exec w.mute (s.mute older) := by
  cases w with
  | perform e => exact mute_perform e s
  | run k => exact mute_run k s
  | settle => exact mute_settle _ s
  | cancelSlot => exact mute_cancelThen _ s
  | supersede => exact mute_supersede _ _ s
  | cancelEach => exact mute_cancelEach _ _ _ s
  | skip => exact mute_skip s
  | openVacancy => exact mute_openVacancy [] s
  | vacate => exact mute_vacate s
  | dispatch => exact mute_dispatch s
  | chain => exact mute_chain _ s
  | await => exact mute_await _ s
  | release => exact mute_release _ s
  | endTask => exact mute_endTask s
  | handOver => exact mute_handOver s
  | park => exact mute_park _ s
  | finish => exact mute_finish _ s
  | _ => rfl

theorem step?_mute (s : Machine D) :
    (s.mute older).step? = s.step?.map (Machine.mute older) := by
  unfold step?
  rw [work_mute]
  cases s.work with
  | nil => rfl
  | cons w rest => exact congrArg some (mute_exec w { s with work := rest }).symm

/-- Draining a machine drains the muted one. -/
theorem mute_drain (s : Machine D) : s.drain.mute older = (s.mute older).drain := by
  cases h : s.step? with
  | none =>
      have hm : (s.mute older).step? = none := by rw [step?_mute, h, Option.map_none]
      rw [drain_of_atRest (step?_eq_none_iff.mp h), drain_of_atRest (step?_eq_none_iff.mp hm)]
  | some t =>
      have : t.Below s := step?_below h
      have hm : (s.mute older).step? = some (t.mute older) := by
        rw [step?_mute, h, Option.map_some]
      rw [drain_of_step? h, drain_of_step? hm, mute_drain t]
termination_by (s.text, s.load)
decreasing_by exact this.lex

/-! ### Moves -/

/-- A move with the results of all callbacks struck out that it brings. -/
def Move.mute : Move D → Move D
  | .submit kind body => .submit kind body.mute
  | .onSettled id tag es => .onSettled id tag (es.map Effect.mute)
  | .effects es => .effects (es.map Effect.mute)
  | m => m

/-- The task of the request publishes `o` when it is polled. -/
def Hears (s : Machine D) (i : Nat) (o : Outcome (Value D)) : Prop :=
  s.At i fun e => e.task = .working ∧ e.callback = .returned o

theorem mute_startJob (s : Machine D) :
    (s.startJob i).mute older = (s.mute older).startJob i := by
  unfold startJob
  rw [getElem?_mute]
  cases s.entries[i]? with
  | none => rfl
  | some e =>
      obtain ⟨kind, seq, request, stage, vacancy, task, callback, released, future⟩ := e
      cases callback with
      | held job =>
          cases job with
          | callback body => simp [Entry.mute, Callback.mute, Job.mute]
          | immediate outcome =>
              cases outcome <;> simp [Entry.mute, Callback.mute, Job.mute, Work.mute]
          | latched value =>
              cases released <;> simp [Entry.mute, Callback.mute, Job.mute, Work.mute]
      | _ => exact mute_put _ s

theorem mute_closeOut (s : Machine D) :
    (s.closeOut i).mute older = (s.mute older).closeOut i := by
  unfold closeOut
  rw [getElem?_mute]
  cases s.entries[i]? with
  | none => rfl
  | some e =>
      dsimp only [Option.map_some]
      rw [mute_cancelThen]
      refine congrArg (cancelThen i _) ?_
      change _ = if e.task = .handed then _ else _
      split
      · rw [mute_putPermit, mute_put]
        rfl
      · exact mute_put _ s

/-- As long as a task has nothing to publish, it goes on like the muted one. -/
theorem mute_continueJob {s : Machine D} (h : ∀ o, ¬s.At i (·.callback = .returned o)) :
    (s.continueJob i).mute older = (s.mute older).continueJob i := by
  unfold continueJob
  rw [getElem?_mute]
  cases he : s.entries[i]? with
  | none => rfl
  | some e =>
      have hret (o : Outcome (Value D)) : e.callback ≠ .returned o := fun hc => h o ⟨e, he, hc⟩
      obtain ⟨kind, seq, request, stage, vacancy, task, callback, released, future⟩ := e
      cases callback with
      | returned o => exact absurd rfl (hret o)
      | latched value => cases released <;> simp [Entry.mute, Callback.mute, Work.mute]
      | _ => rfl

theorem mute_poll {s : Machine D} (h : ∀ o, ¬s.Hears i o) :
    (s.poll i).mute older = (s.mute older).poll i := by
  unfold poll
  rw [getElem?_mute]
  cases he : s.entries[i]? with
  | none => rfl
  | some e =>
      have hret (ht : e.task = .working) (o : Outcome (Value D)) :
          ¬s.At i (·.callback = .returned o) := fun hc => h o ⟨e, he, ht, hc.of_entry he⟩
      obtain ⟨kind, seq, request, stage, vacancy, task, callback, released, future⟩ := e
      dsimp only [Option.map_some, Entry.mute]
      rw [permits_mute]
      cases task with
      | unspawned => rfl
      | ended => rfl
      | fresh =>
          cases kind with
          | write => exact mute_startJob s
          | read =>
              cases s.permits with
              | none => exact mute_startJob s
              | some p =>
                  dsimp only
                  rcases p.acquire i with ⟨_ | _ | _, p⟩
                  · exact mute_closeOut s
                  · exact mute_startJob _
                  · exact mute_put _ _
      | queueing =>
          dsimp only
          split
          · exact mute_closeOut s
          · rfl
      | handed =>
          dsimp only
          split
          · exact mute_closeOut s
          · exact mute_startJob s
      | working => exact mute_continueJob (hret rfl)

theorem mute_advance (s : Machine D) :
    (s.advance i).mute older = (s.mute older).advance i := by
  unfold advance
  rw [getElem?_mute]
  cases s.entries[i]? with
  | none => rfl
  | some e =>
      obtain ⟨kind, seq, request, stage, vacancy, task, callback, released, future⟩ := e
      cases callback with
      | offered body =>
          obtain ⟨_ | _ | _, pre, post, result⟩ := body
          all_goals simp [Entry.mute, Callback.mute, Body.mute, Work.mute]
      | parked body => simp [Entry.mute, Callback.mute, Body.mute, Work.mute]
      | _ => rfl

theorem mute_modify {f : Entry D → Entry D} (hf : ∀ e, (f e).mute = f e.mute) (s : Machine D) :
    (s.modify i f).mute older = (s.mute older).modify i f := by
  unfold modify
  rw [getElem?_mute]
  cases s.entries[i]? with
  | none => rfl
  | some e => rw [mute_put, hf, Option.map_some]

theorem mute_releaseJob (s : Machine D) :
    (s.releaseJob i).mute older = (s.mute older).releaseJob i := by
  unfold releaseJob
  rw [getElem?_mute]
  cases s.entries[i]? with
  | none => rfl
  | some e =>
      obtain ⟨kind, seq, request, stage, vacancy, task, callback, released, future⟩ := e
      cases callback with
      | latched value => cases released <;> simp [Entry.mute, Callback.mute]
      | _ => exact mute_put _ s

theorem mute_closePermits (s : Machine D) :
    s.closePermits.mute older = (s.mute older).closePermits := by
  unfold closePermits
  rw [permits_mute]
  cases s.permits <;> rfl

theorem mute_closeDown (s : Machine D) : s.closeDown.mute older = (s.mute older).closeDown := by
  unfold closeDown
  dsimp only
  rw [vacated_mute, mute_push, mute_note, mute_closePermits, List.map_map]
  rfl

theorem mute_begin {s : Machine D} (m : Move D) (h : ∀ i, m = .poll i → ∀ o, ¬s.Hears i o) :
    (m.begin s).mute older = m.mute.begin (s.mute older) := by
  cases m with
  | submit kind body => exact mute_submit kind body [] s
  | cancel id =>
      simp only [Move.begin, Move.mute, getElem?_mute, Option.isSome_map]
      split
      · exact mute_cancelThen [] s
      · rfl
  | cancelAll => exact mute_cancelAll [] s
  | snapshot => exact (congrArg Prod.snd (snapshot_mute s)).symm
  | onSettled id tag es => exact mute_onSettled tag es [] s
  | effects es => simp [Move.begin, Move.mute, Function.comp_def, Work.mute]
  | shutdown => exact mute_closeDown s
  | report ids timeoutMs => simp [Move.begin, Move.mute, finishShutdown]
  | trip id =>
      simp only [Move.begin, Move.mute, hasBegun_mute]
      split
      · exact mute_trip s
      · rfl
  | awaitRequest id waker => exact mute_modify (fun _ => by simp [Entry.mute]) s
  | takeOutcome id => exact mute_modify (fun _ => by simp [Entry.mute]) s
  | dropFuture id => exact mute_modify (fun _ => by simp [Entry.mute]) s
  | release id => exact mute_releaseJob s
  | poll id =>
      simp only [Move.begin, Move.mute, ready_mute]
      cases s.ready.pick? id with
      | none => rfl
      | some rest => exact mute_poll (h id rfl)
  | advance id => exact mute_advance s
  | pause => rfl
  | lose tasks =>
      simp only [Move.begin, Move.mute, aliveTasks_mute, live_mute]
      split
      · rw [mute_push, List.map_map]
        rfl
      · rfl

/-- A move that publishes no result is made by the muted machine as well. -/
theorem mute_apply {s : Machine D} (m : Move D) (h : ∀ i, m = .poll i → ∀ o, ¬s.Hears i o) :
    (m.apply s).mute older = m.mute.apply (s.mute older) := by
  rw [Move.apply, mute_drain, mute_begin m h, Move.apply]

end Machine

end RequestScheduler
