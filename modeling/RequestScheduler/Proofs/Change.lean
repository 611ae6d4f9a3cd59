import RequestScheduler.Proofs.Transition

/-!
# How an entry changes

Every step changes an entry in one of a few ways. A touch leaves the slot as others see it: the
request settles, the task goes on, the callback goes on, the client uses the future. A shift moves
the slot: it is skipped, dispatched or vacated, its vacancy opens, or a gate enrols with it. The
flag of the indicator is set apart from both.

Whatever is read off an entry for all times is read off these lists: what stays (`Entry.Grows`)
and what always holds (`Entry.Coherent`).
-/

namespace RequestScheduler

variable {D : Type}

theorem Cell.mem_continuations_register {V W K : Type} {c : Cell V W K} {k l : K}
    (h : l ∈ (c.register k).continuations) : l ∈ c.continuations ∨ l = k := by
  cases c with
  | pending ws ks => simpa [register, continuations] using h
  | settled v taken => simp [register, continuations] at h

@[simp] theorem Cell.continuations_await {V W K : Type} [DecidableEq W] (w : W)
    (c : Cell V W K) : (c.await w).continuations = c.continuations := by
  cases c <;> rfl

@[simp] theorem Cell.continuations_take {V W K : Type} (c : Cell V W K) :
    c.take.2.continuations = c.continuations := by
  rcases c with _ | ⟨v, _ | _⟩ <;> rfl

/-- Whether the callback is still to be called. -/
def Callback.isWaiting : Callback D → Bool
  | .held _ | .offered _ => true
  | _ => false

/-- Whether the callback has returned and been heard, or will never be called. -/
def Callback.isOver : Callback D → Bool
  | .spent | .dropped => true
  | _ => false

/-- Whether the callback has been called and has not returned. -/
def Callback.isRunning : Callback D → Bool
  | .running | .parked _ => true
  | _ => false

theorem Callback.hasBegun_of_isRunning {c : Callback D} (h : c.isRunning = true) :
    c.hasBegun = true := by
  cases c <;> simp_all [isRunning, hasBegun]

theorem Callback.isOver_of_isRunning {c : Callback D} (h : c.isRunning = true) :
    c.isOver = false := by
  cases c <;> simp_all [isRunning, isOver]

/-- A slot as others see it. -/
structure Berth (D : Type) where
  kind : Kind
  stage : Stage
  /-- Whether the slot was ever handed to the runtime. -/
  spawned : Bool
  vacancy : Cell Unit Empty (Continuation D)

namespace Entry

def berth (e : Entry D) : Berth D where
  kind := e.kind
  stage := e.stage
  spawned := decide (e.task ≠ .unspawned)
  vacancy := e.vacancy

/-- Changes that leave the slot as others see it. -/
inductive Touch : Entry D → Entry D → Prop
  | refl (e) : Touch e e
  | trans {e f g} : Touch e f → Touch f g → Touch e g
  /-- An outcome is published: cancellation, what the callback returned, or a refusal. -/
  | publish {e : Entry D} (o : Outcome (Value D))
      (h : o = .error .cancelled ∨ e.callback = .spent ∨ e.stage = .refused) :
      Touch e { e with request := e.request.publish o }
  | register {e : Entry D} (tag : D) (effects : List (Effect D)) :
      Touch e { e with request := e.request.register (.react tag effects) }
  | await {e : Entry D} (waker : Nat) : Touch e { e with request := e.request.await waker }
  | take {e : Entry D} : Touch e { e with request := e.request.take.2 }
  | hold {e : Entry D} (future : Hold) : Touch e { e with future }
  | release {e : Entry D} : Touch e { e with released := true }
  /-- The task waits for a permit. -/
  | enqueue {e : Entry D} (h : e.task = .fresh) : Touch e { e with task := .queueing }
  | hand {e : Entry D} (h : e.task = .queueing) : Touch e { e with task := .handed }
  /-- The task hands the callback to the pool of threads. -/
  | offer {e : Entry D} {body : Body D} (ht : e.task = .fresh ∨ e.task = .handed)
      (hc : e.callback = .held (.callback body)) :
      Touch e { e with task := .working, callback := .offered body }
  /-- The task gives up before its job has begun. -/
  | stop {e : Entry D} (h : e.task ≠ .unspawned) : Touch e { e with task := .ended }
  | endTask {e : Entry D} (h : e.task ≠ .unspawned) :
      Touch e { e with task := .ended, callback := e.callback.close }
  | resume {e : Entry D} {body : Body D} (h : e.callback = .parked body) :
      Touch e { e with callback := .running }
  /-- The task hears what the callback returned. -/
  | hear {e : Entry D} (o : Outcome (Value D)) (h : e.callback = .returned o) :
      Touch e { e with callback := .spent }

/-- Ways in which a callback stops performing: it parks, it returns to its task, or it returns
when there is no task to hear it. -/
inductive Yield : Entry D → Entry D → Prop
  | park {e : Entry D} (body : Body D) : Yield e { e with callback := .parked body }
  | answer {e : Entry D} (o : Outcome (Value D)) : Yield e { e with callback := .returned o }
  | spend {e : Entry D} : Yield e { e with callback := .spent }

/-- Changes of the slot. -/
inductive Shift : Entry D → Entry D → Prop
  | skip {e : Entry D} (h : e.stage = .queued) (ht : e.request.tripped = true) :
      Shift e { e with stage := .vacated, callback := .dropped }
  | dispatch {e : Entry D} (task : Task) (h : e.stage = .queued)
      (ht : e.request.tripped = false) (hk : task = .fresh ∨ task = .ended) :
      Shift e { e with stage := .dispatched, task }
  | openVacancy {e : Entry D} (h : e.stage = .vacated) :
      Shift e { e with vacancy := e.vacancy.settle () }
  | vacate {e : Entry D} (h : e.task = .ended) (hc : e.callback.isWaiting = false) :
      Shift e { e with stage := .vacated, vacancy := e.vacancy.settle () }
  /-- A gate waits for the slot to vacate. -/
  | enrol {e : Entry D} (gate : Nat) :
      Shift e { e with vacancy := e.vacancy.register (.release gate) }

/-- What stays as it is, once it is so. -/
structure Grows (e f : Entry D) : Prop where
  kind : f.kind = e.kind
  seq : f.seq = e.seq
  refused : f.stage = .refused ↔ e.stage = .refused
  queued : f.stage = .queued → e.stage = .queued
  vacated : e.stage = .vacated → f.stage = .vacated
  isVacated : e.isVacated = true → f.isVacated = true
  tripped : e.request.tripped = true → f.request.tripped = true
  value : ∀ o, e.request.cell.value? = some o → f.request.cell.value? = some o
  spawned : e.task ≠ .unspawned → f.task ≠ .unspawned
  /-- A slot whose cancellation was requested in time is never dispatched. -/
  skipped : e.request.tripped = true → e.task = .unspawned → f.task = .unspawned
  ended : e.task = .ended → f.task = .ended
  begun : e.callback.hasBegun = true → f.callback.hasBegun = true
  called : e.callback.isWaiting = false → f.callback.isWaiting = false
  spent : e.callback = .spent → f.callback = .spent
  dropped : e.callback = .dropped → f.callback = .dropped

/-- What holds of an entry at any time. -/
structure Coherent (e : Entry D) : Prop where
  queued : e.stage = .queued → e.task = .unspawned ∧ e.isVacated = false ∧
    ∃ body, e.callback = .held (.callback body)
  refused : e.stage = .refused → e.task = .unspawned ∧ e.isVacated = false ∧
    e.callback = .dropped
  dispatched : e.stage = .dispatched → e.task ≠ .unspawned ∧ e.isVacated = false
  /-- A vacated slot was skipped, or its task is over. -/
  vacated : e.stage = .vacated →
    (e.task = .unspawned ∧ e.request.tripped = true ∧ e.callback = .dropped) ∨
    (e.task = .ended ∧ e.callback.isWaiting = false)
  waiting : e.task = .fresh ∨ e.task = .queueing ∨ e.task = .handed →
    ∃ body, e.callback = .held (.callback body)
  working : e.task = .working → e.callback.hasBegun = true ∨ ∃ body, e.callback = .offered body
  begun : e.callback.hasBegun = true → e.task ≠ .unspawned
  unlatched : ∀ v, e.callback ≠ .latched v
  /-- A request ends as cancelled as long as its callback has not been heard. -/
  outcome : ∀ o, e.request.cell.value? = some o →
    o = .error .cancelled ∨ e.callback = .spent ∨ e.stage = .refused
  reactions : ∀ k ∈ e.request.cell.continuations, ∃ tag effects, k = .react tag effects
  releases : ∀ k ∈ e.vacancy.continuations, ∃ gate, k = .release gate

variable {e f g : Entry D}

theorem Grows.refl (e : Entry D) : e.Grows e := by
  constructor <;> simp

theorem Grows.trans (h₁ : e.Grows f) (h₂ : f.Grows g) : e.Grows g where
  kind := h₂.kind.trans h₁.kind
  seq := h₂.seq.trans h₁.seq
  refused := h₂.refused.trans h₁.refused
  queued h := h₁.queued (h₂.queued h)
  vacated h := h₂.vacated (h₁.vacated h)
  isVacated h := h₂.isVacated (h₁.isVacated h)
  tripped h := h₂.tripped (h₁.tripped h)
  value o h := h₂.value o (h₁.value o h)
  spawned h := h₂.spawned (h₁.spawned h)
  skipped ht hk := h₂.skipped (h₁.tripped ht) (h₁.skipped ht hk)
  ended h := h₂.ended (h₁.ended h)
  begun h := h₂.begun (h₁.begun h)
  called h := h₂.called (h₁.called h)
  spent h := h₂.spent (h₁.spent h)
  dropped h := h₂.dropped (h₁.dropped h)

theorem Grows.trip (e : Entry D) : e.Grows { e with request := e.request.trip } :=
  by constructor <;> simp [Entry.isVacated, Request.trip]

/-- A callback that begins was handed over before. -/
theorem Grows.begin {body : Body D} (h : e.callback = .offered body) :
    e.Grows { e with callback := .running } := by
  constructor <;> simp_all [Entry.isVacated, Callback.hasBegun, Callback.isWaiting]

/-- What a request settled with stays, so it stays settled. -/
theorem Grows.isSettled (h : e.Grows f) (hs : e.request.isSettled = true) :
    f.request.isSettled = true := by
  obtain ⟨o, ho⟩ := Option.isSome_iff_exists.mp ((Cell.isSome_value? e.request.cell).trans hs)
  rw [Request.isSettled, ← Cell.isSome_value?, h.value o ho]
  rfl

theorem Grows.publish (e : Entry D) (o : Outcome (Value D)) :
    e.Grows { e with request := e.request.publish o } := by
  constructor <;> simp_all [Entry.isVacated, Request.publish, Cell.value?_settle]

theorem Touch.grows (h : e.Touch f) : e.Grows f := by
  induction h with
  | refl e => exact .refl e
  | trans _ _ ih₁ ih₂ => exact ih₁.trans ih₂
  | publish => exact .publish _ _
  | register | await | take | hold | release =>
      constructor <;> simp_all [isVacated, Request.register, Request.await, Request.take]
  | enqueue h | hand h | stop h | resume h | hear _ h =>
      constructor <;> simp_all [isVacated, Callback.hasBegun, Callback.isWaiting]
  | offer ht hc =>
      obtain ht | ht := ht <;>
        constructor <;> simp_all [isVacated, Callback.hasBegun, Callback.isWaiting]
  | @endTask e h =>
      have hb : e.callback.hasBegun = true → e.callback.close.hasBegun = true := by
        cases e.callback <;> simp [Callback.close, Callback.hasBegun]
      have hw : e.callback.close.isWaiting = false := by cases e.callback <;> rfl
      constructor <;> simp_all [isVacated, Callback.close]

theorem Yield.grows (h : e.Yield f) (hr : e.callback = .running) : e.Grows f := by
  cases h <;> constructor <;> simp_all [isVacated, Callback.hasBegun, Callback.isWaiting]

theorem Shift.grows (h : e.Shift f) (hc : e.Coherent) : e.Grows f := by
  cases h with
  | skip h ht =>
      obtain ⟨_, _, body, hb⟩ := hc.queued h
      constructor <;> simp_all [isVacated, Callback.hasBegun, Callback.isWaiting]
  | dispatch task h ht hk =>
      have hu := (hc.queued h).1
      obtain rfl | rfl := hk <;> constructor <;> simp_all [isVacated]
  | openVacancy h => constructor <;> simp_all [isVacated]
  | vacate h hw =>
      have hr := hc.refused
      constructor <;> simp_all [isVacated]
  | enrol => constructor <;> simp [isVacated]

/-- A callback that is over stays so. -/
theorem Grows.isOver (h : e.Grows f) (ho : e.callback.isOver = true) :
    f.callback.isOver = true := by
  cases hc : e.callback with
  | spent => simp [h.spent hc, Callback.isOver]
  | dropped => simp [h.dropped hc, Callback.isOver]
  | _ => simp [hc, Callback.isOver] at ho

theorem Touch.berth (h : e.Touch f) : f.berth = e.berth := by
  induction h with
  | trans _ _ ih₁ ih₂ => exact ih₂.trans ih₁
  | enqueue h | hand h => simp [Entry.berth, h]
  | offer h _ => obtain h | h := h <;> simp [Entry.berth, h]
  | stop h | endTask h => simp [Entry.berth, h]
  | _ => rfl

theorem Touch.tripped (h : e.Touch f) : f.request.tripped = e.request.tripped := by
  induction h with
  | trans _ _ ih₁ ih₂ => exact ih₂.trans ih₁
  | _ => rfl

theorem Touch.hasBegun (h : e.Touch f) : f.callback.hasBegun = e.callback.hasBegun := by
  induction h with
  | trans _ _ ih₁ ih₂ => exact ih₂.trans ih₁
  | offer _ hc => simp [hc, Callback.hasBegun]
  | @endTask e _ => cases e.callback <;> rfl
  | resume h | hear _ h => simp [h, Callback.hasBegun]
  | _ => rfl

theorem Yield.hasBegun (h : e.Yield f) : f.callback.hasBegun = true := by
  cases h <;> rfl

theorem Shift.hasBegun (h : e.Shift f) (hc : e.Coherent) :
    f.callback.hasBegun = e.callback.hasBegun := by
  cases h with
  | skip h _ =>
      obtain ⟨_, _, body, hb⟩ := hc.queued h
      simp [hb, Callback.hasBegun]
  | _ => rfl

/-- A callback that performs goes on performing until it yields. -/
theorem Touch.running (h : e.Touch f) (hr : e.callback = .running) : f.callback = .running := by
  induction h with
  | trans _ _ ih₁ ih₂ => exact ih₂ (ih₁ hr)
  | offer _ hc => simp [hc] at hr
  | endTask _ => simp [hr, Callback.close]
  | resume h => rfl
  | hear _ h => simp [h] at hr
  | _ => exact hr

/-- A change of the request alone, which keeps the outcome and the continuations sound. -/
theorem Coherent.request (hc : e.Coherent) {r : Request (Value D) Nat (Continuation D)}
    (ht : e.request.tripped = true → r.tripped = true)
    (ho : ∀ o, r.cell.value? = some o →
      o = .error .cancelled ∨ e.callback = .spent ∨ e.stage = .refused)
    (hr : ∀ k ∈ r.cell.continuations, ∃ tag effects, k = .react tag effects) :
    Coherent { e with request := r } where
  queued := hc.queued
  refused := hc.refused
  dispatched := hc.dispatched
  vacated h := (hc.vacated h).imp_left (And.imp_right (And.imp_left ht))
  waiting := hc.waiting
  working := hc.working
  begun := hc.begun
  unlatched := hc.unlatched
  outcome := ho
  reactions := hr
  releases := hc.releases

theorem Coherent.trip (hc : e.Coherent) : Coherent { e with request := e.request.trip } :=
  hc.request (fun _ => rfl) hc.outcome hc.reactions

/-- A task that exists goes on, and its callback with it. -/
theorem Coherent.proceed (hc : e.Coherent) {task : Task} {callback : Callback D}
    (hs : e.task ≠ .unspawned) (ht : task ≠ .unspawned)
    (hv : e.task = .ended → e.callback.isWaiting = false →
      task = .ended ∧ callback.isWaiting = false)
    (hw : task = .fresh ∨ task = .queueing ∨ task = .handed →
      ∃ body, callback = .held (.callback body))
    (hj : task = .working → callback.hasBegun = true ∨ ∃ body, callback = .offered body)
    (hl : ∀ v, callback ≠ .latched v) (ho : e.callback = .spent → callback = .spent) :
    Coherent { e with task, callback } where
  queued h := absurd (hc.queued h).1 hs
  refused h := absurd (hc.refused h).1 hs
  dispatched h := ⟨ht, (hc.dispatched h).2⟩
  vacated h := by
    obtain ⟨hk, _⟩ | ⟨hk, hn⟩ := hc.vacated h
    · exact absurd hk hs
    · exact .inr (hv hk hn)
  waiting := hw
  working := hj
  begun _ := ht
  unlatched := hl
  outcome o h := (hc.outcome o h).imp_right (.imp_left ho)
  reactions := hc.reactions
  releases := hc.releases

/-- A callback was handed over by the task of a dispatched slot. -/
theorem Coherent.spawned (hc : e.Coherent) {body : Body D} (h : e.callback = .offered body) :
    e.task ≠ .unspawned := by
  cases hs : e.stage with
  | refused => simp [(hc.refused hs).2.2] at h
  | queued =>
      obtain ⟨_, _, body, hb⟩ := hc.queued hs
      simp [hb] at h
  | dispatched => exact (hc.dispatched hs).1
  | vacated =>
      obtain ⟨_, _, hd⟩ | ⟨_, hw⟩ := hc.vacated hs
      · simp [hd] at h
      · simp [h, Callback.isWaiting] at hw

/-- A callback that begins was handed over by a task at work. -/
theorem Coherent.begin (hc : e.Coherent) {body : Body D} (h : e.callback = .offered body) :
    Coherent { e with callback := .running } :=
  hc.proceed (hc.spawned h) (hc.spawned h) (by simp [h, Callback.isWaiting])
    (by simpa [h] using hc.waiting) (by simp [Callback.hasBegun]) (by simp) (by simp [h])

theorem Touch.coherent (h : e.Touch f) (hc : e.Coherent) : f.Coherent := by
  induction h with
  | refl => exact hc
  | trans _ _ ih₁ ih₂ => exact ih₂ (ih₁ hc)
  | @publish e o h =>
      refine hc.request id (fun v hv => ?_) (by simp)
      rcases hr : e.request.cell.value? with _ | u
      · simp only [Request.publish, Cell.value?_settle, hr, Request.resolve, Option.getD_none,
          Option.some.injEq] at hv
        subst hv
        split
        · exact .inl rfl
        · exact h
      · simp only [Request.publish, Cell.value?_settle, hr, Option.getD_some,
          Option.some.injEq] at hv
        exact hv ▸ hc.outcome u hr
  | @register e tag effects =>
      refine hc.request id (by simpa [Request.register] using hc.outcome) ?_
      intro k hk
      obtain hk | rfl := Cell.mem_continuations_register hk
      · exact hc.reactions k hk
      · exact ⟨tag, effects, rfl⟩
  | await | take =>
      exact hc.request id (by simpa [Request.await, Request.take] using hc.outcome)
        (by simpa [Request.await, Request.take] using hc.reactions)
  | hold | release => exact { hc with }
  | enqueue h | hand h =>
      exact hc.proceed (by simp [h]) (by simp) (by simp [h]) (fun _ => hc.waiting (by simp [h]))
        (by simp) hc.unlatched id
  | offer ht hb =>
      exact hc.proceed (by obtain h | h := ht <;> simp [h]) (by simp)
        (by simp [hb, Callback.isWaiting]) (by simp) (by simp) (by simp) (by simp [hb])
  | stop h => exact hc.proceed h (by simp) (fun _ => .intro rfl) (by simp) (by simp) hc.unlatched id
  | @endTask e h =>
      have hw : e.callback.close.isWaiting = false := by cases e.callback <;> rfl
      have hl : ∀ v, e.callback.close ≠ .latched v := by cases e.callback <;> simp [Callback.close]
      exact hc.proceed h (by simp) (fun _ _ => ⟨rfl, hw⟩) (by simp) (by simp) hl
        (by simp +contextual [Callback.close])
  | @resume e _ h | @hear e _ h =>
      have hs := hc.begun (by simp [h, Callback.hasBegun])
      have hw : ¬(e.task = .fresh ∨ e.task = .queueing ∨ e.task = .handed) := by
        intro ht
        obtain ⟨body, hq⟩ := hc.waiting ht
        simp [hq] at h
      exact hc.proceed hs hs (by simp +contextual [Callback.isWaiting]) (fun ht => absurd ht hw)
        (by simp [Callback.hasBegun]) (by simp) (by simp [h])

theorem Yield.coherent (h : e.Yield f) (hr : e.callback = .running) (hc : e.Coherent) :
    f.Coherent := by
  have hs := hc.begun (by simp [hr, Callback.hasBegun])
  have hw : ¬(e.task = .fresh ∨ e.task = .queueing ∨ e.task = .handed) := by
    intro ht
    obtain ⟨body, hq⟩ := hc.waiting ht
    simp [hq] at hr
  cases h <;>
    exact hc.proceed hs hs (by simp +contextual [Callback.isWaiting]) (fun ht => absurd ht hw)
      (by simp [Callback.hasBegun]) (by simp) (by simp [hr])

theorem Shift.coherent (h : e.Shift f) (hc : e.Coherent) : f.Coherent := by
  cases h with
  | skip h ht =>
      obtain ⟨hk, hv, body, hb⟩ := hc.queued h
      exact {
        queued := by simp
        refused := by simp
        dispatched := by simp
        vacated := fun _ => .inl ⟨hk, ht, rfl⟩
        waiting := by simp [hk]
        working := by simp [hk]
        begun := by simp [Callback.hasBegun]
        unlatched := by simp
        outcome := fun o ho => by simpa [hb, h] using hc.outcome o ho
        reactions := hc.reactions
        releases := hc.releases }
  | dispatch task h ht hk =>
      obtain ⟨_, hv, body, hb⟩ := hc.queued h
      exact {
        queued := by simp
        refused := by simp
        dispatched := fun _ => ⟨by obtain rfl | rfl := hk <;> simp, hv⟩
        vacated := by simp
        waiting := fun _ => ⟨body, hb⟩
        working := by obtain rfl | rfl := hk <;> simp
        begun := by simp [hb, Callback.hasBegun]
        unlatched := hc.unlatched
        outcome := fun o ho => by simpa [hb, h] using hc.outcome o ho
        reactions := hc.reactions
        releases := hc.releases }
  | openVacancy h =>
      exact { hc with
        queued := by simp [h]
        refused := by simp [h]
        dispatched := by simp [h]
        releases := by simp }
  | vacate h hw =>
      exact {
        queued := by simp
        refused := by simp
        dispatched := by simp
        vacated := fun _ => .inr ⟨h, hw⟩
        waiting := hc.waiting
        working := hc.working
        begun := hc.begun
        unlatched := hc.unlatched
        outcome := by
          intro o ho
          have hr : e.stage ≠ .refused := fun hr => by simp [(hc.refused hr).1] at h
          simpa [hr] using hc.outcome o ho
        reactions := hc.reactions
        releases := by simp }
  | enrol gate =>
      exact { hc with
        queued := by simpa [isVacated] using hc.queued
        refused := by simpa [isVacated] using hc.refused
        dispatched := by simpa [isVacated] using hc.dispatched
        releases := by
          intro k hk
          obtain hk | rfl := Cell.mem_continuations_register hk
          · exact hc.releases k hk
          · exact ⟨gate, rfl⟩ }

theorem coherent_queued (kind : Kind) (seq : UInt64) (body : Body D) :
    (queued kind seq (.callback body)).Coherent := by
  constructor <;> simp [queued, isVacated, Cell.empty, Cell.continuations, Cell.value?,
    Callback.hasBegun]

theorem coherent_refused (kind : Kind) : (refused kind : Entry D).Coherent := by
  constructor <;> simp [refused, isVacated, Cell.empty, Cell.continuations, Cell.value?,
    Callback.hasBegun]

end Entry

end RequestScheduler
