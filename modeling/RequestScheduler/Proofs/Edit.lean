import RequestScheduler.Proofs.Act
import RequestScheduler.Proofs.Rule

/-!
# What an act does to a request

An act reaches few requests, and what it does to one of them is little. What can be done is listed
here once (`Entry.Edit`), each change with the act that makes it. Whatever is to be known of an act
about the requests that are there is read off this list.
-/

namespace RequestScheduler

variable {D : Type}

namespace Agenda

/-- The tasks that are ready. -/
def tasks (a : Agenda) : List Nat := a.own ++ a.arrived

theorem size_eq_zero_iff {a : Agenda} : a.size = 0 ↔ a.tasks = [] := by
  simp [size, tasks]

@[simp] theorem tasks_pause (a : Agenda) : a.pause.tasks = a.tasks := rfl

@[simp] theorem mem_tasks_add {i j : Nat} {a : Agenda} :
    i ∈ (a.add j).tasks ↔ i ∈ a.tasks ∨ i = j := by
  unfold add tasks
  split <;> simp [or_comm, or_left_comm]

end Agenda

namespace Work

/-- The request whose flag a work item sets. -/
def trips? : Work D → Option Nat
  | .cancelSlot i | .supersede i _ | .cancelEach (i :: _) _ _ | .perform (.cancel i) => some i
  | _ => none

/-- The request whose slot a work item moves, whose task it ends, or whose callback it parks or
returns from. -/
def seat? : Work D → Option Nat
  | .skip i | .openVacancy i | .vacate i | .dispatch i | .endTask i | .park i _ | .finish i _ =>
    some i
  | _ => none

end Work

/-- Whether a task waits for a permit, or was handed one. -/
def Task.isServed : Task → Bool
  | .queueing | .handed => true
  | _ => false

namespace Machine

/-- The request whose flag a move sets. -/
def Move.trips? : Move D → Option Nat
  | .cancel i | .trip i => some i
  | _ => none

/-- Whether a move lets tasks and callbacks go on, or takes the runtime or its permits away. -/
def Move.isBusy : Move D → Bool
  | .shutdown | .poll _ | .advance _ | .lose _ => true
  | _ => false

/-- The request whose flag an act sets. -/
def Act.trips? : Act D → Option Nat
  | .item w => w.trips?
  | .move m => m.trips?

/-- Whether an act changes how far a request has come. -/
def Act.isBusy : Act D → Bool
  | .item w => w.seat?.isSome
  | .move m => m.isBusy

/-- The request that an act registers a client's continuation on. -/
def Act.registers? : Act D → Option Nat
  | .item (.perform (.onSettled i _ _)) | .move (.onSettled i _ _) => some i
  | _ => none

/-- Whether no permit can be had any more. -/
def isShut (s : Machine D) : Bool := (s.permits.map (·.closed)).getD true

end Machine

/-- The task needs a permit to go on, and no permit can be had any more. -/
def Entry.Stranded (permits : Option Permits) (e : Entry D) : Prop :=
  (e.task = .fresh ∧ permits ≠ none ∨ e.task.isServed = true) ∧
    (permits.map (·.closed)).getD true = true

/-- What an act can do to request `i` when the shared number is `n` and the permits are `p`. -/
inductive Entry.Edit (a : Machine.Act D) (n : Int64) (p : Option Permits) (i : Nat) (e : Entry D) :
    Entry D → Prop
  | same : Edit a n p i e e
  | publish {o : Outcome (Value D)} (ha : a = .item (.settle i o)) :
      Edit a n p i e { e with request := e.request.publish o }
  | trip (ha : a.trips? = some i) : Edit a n p i e { e with request := e.request.trip }
  | register {tag : D} {effects : List (Effect D)} (ha : a.registers? = some i) :
      Edit a n p i e { e with request := e.request.register (.react tag effects) }
  | handOver (ha : a = .item (.handOver i)) : Edit a n p i e { e with future := .held }
  | skip (ha : a = .item (.skip i) ∨ a = .item (.dispatch i)) (hq : e.stage = .queued) :
      Edit a n p i e { e with stage := .vacated, callback := .dropped }
  | dispatch {task : Task} (ha : a = .item (.dispatch i)) (hq : e.stage = .queued)
      (hk : task = .fresh ∨ task = .ended) :
      Edit a n p i e { e with stage := .dispatched, task }
  | openVacancy (ha : a = .item (.openVacancy i)) :
      Edit a n p i e { e with vacancy := e.vacancy.settle () }
  | vacate (ha : a = .item (.vacate i)) :
      Edit a n p i e { e with stage := .vacated, vacancy := e.vacancy.settle () }
  | enrol {g : Nat} (ha : a = .item (.await g i)) :
      Edit a n p i e { e with vacancy := e.vacancy.register (.release g) }
  | endTask (ha : a = .item (.endTask i)) :
      Edit a n p i e { e with task := .ended, callback := e.callback.close }
  | park {body : Body D} (ha : a = .item (.park i body)) :
      Edit a n p i e { e with callback := .parked body }
  | answer {r : Result D} (ha : a = .item (.finish i r)) :
      Edit a n p i e { e with callback := .returned (r.outcome n e.request.tripped) }
  | spend {r : Result D} (ha : a = .item (.finish i r)) :
      Edit a n p i e { e with callback := .spent }
  /-- The task is handed a permit that came back. -/
  | hand (ha : a.isBusy = true) (hp : p ≠ none) (hq : e.task = .queueing) :
      Edit a n p i e { e with task := .handed }
  | start {body : Body D} (ha : a = .move (.poll i)) (ht : e.task = .fresh ∨ e.task = .handed)
      (hb : e.callback = .held (.callback body)) :
      Edit a n p i e { e with task := .working, callback := .offered body }
  | enqueue (ha : a = .move (.poll i)) (hp : p ≠ none) :
      Edit a n p i e { e with task := .queueing }
  /-- The task finds the permits closed. -/
  | stop (ha : a = .move (.poll i)) (hs : e.Stranded p) :
      Edit a n p i e { e with task := .ended, request := e.request.trip }
  | hear (ha : a = .move (.poll i)) : Edit a n p i e { e with callback := .spent }
  | resume (ha : a = .move (.advance i)) : Edit a n p i e { e with callback := .running }
  | await {waker : Nat} (ha : a = .move (.awaitRequest i waker)) :
      Edit a n p i e { e with request := e.request.await waker }
  | take (ha : a = .move (.takeOutcome i)) : Edit a n p i e { e with request := e.request.take.2 }
  | dropFuture (ha : a = .move (.dropFuture i)) : Edit a n p i e { e with future := .gone }
  | release (ha : a = .move (.release i)) : Edit a n p i e { e with released := true }

theorem Entry.Stranded.waiting {p : Option Permits} {e : Entry D} (h : e.Stranded p) :
    e.task = .fresh ∨ e.task = .queueing ∨ e.task = .handed := by
  obtain ⟨⟨ht, _⟩ | ht, _⟩ := h
  · exact .inl ht
  · cases hk : e.task <;> simp_all [Task.isServed]

namespace Machine

/-- No task that is ready ceases to be so, and the permits stay as they are. -/
structure Frame (s t : Machine D) : Prop where
  permits : t.permits = s.permits
  ready : s.ready.tasks ⊆ t.ready.tasks

theorem Frame.same {s t : Machine D} (hp : t.permits = s.permits) (hr : t.ready = s.ready) :
    s.Frame t :=
  ⟨hp, hr ▸ List.Subset.refl _⟩

/-- The act leads from `s` to `t`, and does to each request one of the things that acts do. -/
structure Edits (a : Act D) (s t : Machine D) : Prop where
  entry : ∀ {i : Nat} {e : Entry D}, s.entries[i]? = some e →
    ∃ f, t.entries[i]? = some f ∧ e.Edit a s.register s.permits i f
  length : a.submits? = none → t.entries.length = s.entries.length
  frame : a.isBusy = true ∨ s.Frame t

variable {s t u : Machine D} {a : Act D} {i j : Nat} {e f : Entry D} {w : Work D}

theorem Edits.same (he : t.entries = s.entries) (hf : a.isBusy = true ∨ s.Frame t) : Edits a s t :=
  ⟨fun h => ⟨_, he ▸ h, .same⟩, fun _ => by rw [he], hf⟩

theorem Edits.refl (a : Act D) (s : Machine D) : Edits a s s :=
  .same rfl (.inr (.same rfl rfl))

/-- One request is edited. -/
theorem Edits.set (he : s.entries[i]? = some e) (ht : t.entries = s.entries.set i f)
    (hf : e.Edit a s.register s.permits i f) (hfr : a.isBusy = true ∨ s.Frame t) : Edits a s t where
  entry {j b} hb := by
    by_cases hij : i = j
    · subst hij
      obtain rfl := Option.some.inj (he.symm.trans hb)
      exact ⟨f, by rw [ht, getElem?_set_of_some he], hf⟩
    · exact ⟨b, by rw [ht, List.getElem?_set_ne hij, hb], .same⟩
  length _ := by simp [ht]
  frame := hfr

theorem Edits.append (ha : a.submits?.isSome = true) (ht : t.entries = s.entries ++ [f])
    (hf : s.Frame t) : Edits a s t where
  entry {i e} he := ⟨e, ht ▸ getElem?_append_of_some he, .same⟩
  length hn := by simp [hn] at ha
  frame := .inr hf

/-- What a permit that comes back does to a request. -/
theorem entry_putPermit (he : s.entries[i]? = some e) : s.putPermit.entries[i]? = some e ∨
    s.permits ≠ none ∧ e.task = .queueing ∧
      s.putPermit.entries[i]? = some { e with task := .handed } := by
  unfold putPermit
  split
  · exact .inl he
  rename_i p hp
  split
  · exact .inl he
  · rename_i next q _
    unfold hand
    dsimp only
    split
    · exact .inl he
    rename_i b hb
    split
    · rename_i hq
      by_cases hi : next = i
      · subst hi
        obtain rfl := Option.some.inj (he.symm.trans hb)
        refine .inr ⟨by simp [hp], hq, ?_⟩
        exact getElem?_set_of_some he
      · exact .inl ((List.getElem?_set_ne hi).trans he)
    · exact .inl he

@[simp] theorem length_putPermit (s : Machine D) :
    s.putPermit.entries.length = s.entries.length := by
  unfold putPermit hand
  repeat' split
  all_goals simp [wakeTask, put]

/-- A task ends, and its permit may go on to another. -/
theorem Edits.ended (he : s.entries[i]? = some e) (hu : u.entries = s.entries.set i f)
    (hf : e.Edit a s.register s.permits i f) (ht : f.task = .ended) (hp : u.permits = s.permits)
    (ha : a.isBusy = true) : Edits a s u.putPermit where
  entry {j b} hb := by
    by_cases hij : i = j
    · subst hij
      obtain rfl := Option.some.inj (he.symm.trans hb)
      have hset : u.entries[i]? = some f := by
        rw [hu, getElem?_set_of_some he]
      obtain hkept | ⟨_, hq, _⟩ := entry_putPermit hset
      · exact ⟨f, hkept, hf⟩
      · cases ht.symm.trans hq
    · have hset : u.entries[j]? = some b := by rw [hu, List.getElem?_set_ne hij, hb]
      obtain hkept | ⟨hsome, hq, hhanded⟩ := entry_putPermit hset
      · exact ⟨b, hkept, .same⟩
      · exact ⟨_, hhanded, .hand ha (hp ▸ hsome) hq⟩
  length _ := by rw [length_putPermit, hu, List.length_set]
  frame := .inl ha

theorem edits_cancelThen (ha : a.trips? = some i) (after : List (Work D)) (s : Machine D) :
    Edits a s (s.cancelThen i after) := by
  unfold cancelThen trip
  split
  · exact .same rfl (.inr (.same rfl rfl))
  · rename_i e he
    exact .set he rfl (.trip ha) (.inr (.same rfl rfl))

theorem edits_submit {kind : Kind} {body : Body D} {after : List (Work D)}
    (ha : a.submits?.isSome = true) (s : Machine D) : Edits a s (s.submit kind body after) := by
  refine .append ha (entries_submit kind body after s) ?_
  unfold submit
  dsimp only
  split
  · exact .same rfl rfl
  · cases kind with
    | read =>
        dsimp only
        split
        · exact .same rfl rfl
        · exact .same rfl rfl
    | write => exact .same rfl rfl

theorem edits_onSettled {tag : D} {effects : List (Effect D)} {after : List (Work D)}
    (ha : a.registers? = some i) (s : Machine D) :
    Edits a s (s.onSettled i tag effects after) := by
  unfold onSettled
  split
  · exact .same rfl (.inr (.same rfl rfl))
  rename_i e he
  split
  · exact .same rfl (.inr (.same rfl rfl))
  · exact .set he rfl (.register ha) (.inr (.same rfl rfl))

theorem edits_skip (ha : a = .item (.skip i) ∨ a = .item (.dispatch i)) (s : Machine D) :
    Edits a s (s.skip i) := by
  have hbusy : a.isBusy = true := by obtain rfl | rfl := ha <;> rfl
  unfold skip
  split
  · exact .same rfl (.inl hbusy)
  rename_i e he
  split
  · rename_i hq
    exact .set he rfl (.skip ha hq) (.inl hbusy)
  · exact .same rfl (.inl hbusy)

theorem edits_endTask (i : Nat) (s : Machine D) : Edits (.item (.endTask i)) s (s.endTask i) := by
  unfold endTask
  split
  · exact .refl _ s
  rename_i e he
  dsimp only
  split
  · have := Edits.ended (u := { s with ready := s.ready.remove i }.put i
      { e with task := .ended, callback := e.callback.close }) he rfl (.endTask rfl) rfl rfl rfl
    exact ⟨this.entry, this.length, .inl rfl⟩
  · have := Edits.ended (u := { s with ready := s.ready.remove i }.put i
      { e with task := .ended, callback := e.callback.close }) he rfl (.endTask rfl) rfl rfl rfl
    exact ⟨this.entry, this.length, .inl rfl⟩
  · exact .set he rfl (.endTask rfl) (.inl rfl)
  · exact .set he rfl (.endTask rfl) (.inl rfl)

/-- What a client's code does to requests. -/
theorem edits_perform (c : Effect D) (s : Machine D) :
    Edits (.item (.perform c)) s (s.perform c) := by
  cases c with
  | set | add | mul | log | status | snapshot | cancelAll =>
      exact .same rfl (.inr (.same rfl rfl))
  | submit => exact edits_submit rfl s
  | cancel i =>
      unfold perform
      dsimp only
      split
      · exact .same rfl (.inr (.same rfl rfl))
      · exact edits_cancelThen rfl _ s
  | onSettled i tag effects =>
      unfold perform
      dsimp only
      split
      · exact .same rfl (.inr (.same rfl rfl))
      · exact edits_onSettled rfl s

/-- What a work item does to requests. -/
theorem exec_edits (w : Work D) (s : Machine D) : Edits (.item w) s (exec w s) := by
  cases w with
  | perform c => exact edits_perform c s
  | emit | note | reportTally | chain => exact .same rfl (.inr (.same rfl rfl))
  | run k => cases k <;> exact .same rfl (.inr (.same rfl rfl))
  | settle i o =>
      simp only [exec, settle]
      split
      · exact .refl _ s
      rename_i e he
      split
      · exact .refl _ s
      · exact .set he rfl (.publish rfl) (.inr (.same rfl rfl))
  | cancelSlot i => exact edits_cancelThen rfl _ s
  | supersede i x =>
      simp only [exec, supersede]
      split
      · exact edits_cancelThen rfl _ s
      · exact .refl _ s
  | cancelEach ids =>
      cases ids with
      | nil => exact .same rfl (.inr (.same rfl rfl))
      | cons i ids => exact edits_cancelThen rfl _ s
  | skip i => exact edits_skip (.inl rfl) s
  | openVacancy i =>
      simp only [exec, openVacancy]
      split
      · exact .same rfl (.inl rfl)
      rename_i e he
      split
      · exact .same rfl (.inl rfl)
      · exact .set he rfl (.openVacancy rfl) (.inl rfl)
  | vacate i =>
      simp only [exec, vacate]
      split
      · exact .same rfl (.inl rfl)
      rename_i e he
      have hset := getElem?_set_of_some (b := { e with stage := .vacated }) he
      simp only [openVacancy, put, hset, List.set_set]
      split
      · rename_i hv
        refine .set (f := { e with stage := .vacated, vacancy := e.vacancy.settle () }) he ?_
          (.vacate rfl) (.inl rfl)
        rw [Cell.settle_of_isSettled hv]
      · exact .set he rfl (.vacate rfl) (.inl rfl)
  | dispatch i =>
      simp only [exec, dispatch]
      split
      · exact .same rfl (.inl rfl)
      rename_i e he
      split
      · rename_i hq
        split
        · exact edits_skip (.inr rfl) s
        · split
          · exact .set he rfl (.dispatch rfl hq (.inl rfl)) (.inl rfl)
          · exact .set he rfl (.dispatch rfl hq (.inr rfl)) (.inl rfl)
      · exact .same rfl (.inl rfl)
  | await g d =>
      simp only [exec, await]
      split
      · exact .refl _ s
      rename_i e he
      split
      · exact .same rfl (.inr (.same rfl rfl))
      · exact .set he rfl (.enrol rfl) (.inr (.same rfl rfl))
  | release g =>
      simp only [exec, release]
      split
      · exact .refl _ s
      · exact .same rfl (.inr (.same rfl rfl))
  | endTask i => exact edits_endTask i s
  | handOver i =>
      simp only [exec, handOver]
      split
      · exact .refl _ s
      · rename_i e he
        exact .set he rfl (.handOver rfl) (.inr (.same rfl rfl))
  | park i body =>
      simp only [exec, park]
      split
      · exact .refl _ s
      · rename_i e he
        exact .set he rfl (.park rfl) (.inl rfl)
  | finish i r =>
      simp only [exec, finish]
      split
      · exact .refl _ s
      rename_i e he
      split
      · exact .set he rfl (.answer rfl) (.inl rfl)
      · exact .set he rfl (.spend rfl) (.inl rfl)

/-- What the poll of the task of slot `i` leads to, whatever its job is. -/
inductive Visit (s : Machine D) (i : Nat) (e : Entry D) : Machine D → Prop
  /-- The task does not wait for the poll. -/
  | idle (ht : e.task = .unspawned ∨ e.task = .ended ∨ e.task = .queueing ∧ s.isShut = false) :
      Visit s i e s
  | closed (ht : e.task = .fresh ∧ e.kind = .read ∧ s.permits ≠ none ∨ e.task.isServed = true)
      (hs : s.isShut = true) : Visit s i e (s.closeOut i)
  | enqueue {p : Permits} (ht : e.task = .fresh) (hk : e.kind = .read) (hp : s.permits = some p)
      (hc : p.closed = false) (ha : p.available = 0) :
      Visit s i e ({ s with permits := some { p with queue := p.queue ++ [i] } }.put i
        { e with task := .queueing })
  | take {p : Permits} {n : Nat} (ht : e.task = .fresh) (hk : e.kind = .read)
      (hp : s.permits = some p) (hc : p.closed = false) (ha : p.available = n + 1) :
      Visit s i e ({ s with permits := some { p with available := n } }.startJob i)
  /-- The task needs no permit, or has one. -/
  | start (ht : e.task = .fresh ∧ (e.kind = .read → s.permits = none) ∨
      e.task = .handed ∧ s.isShut = false) : Visit s i e (s.startJob i)
  | go (ht : e.task = .working) : Visit s i e (s.continueJob i)

theorem visited (he : s.entries[i]? = some e) : Visit s i e (s.poll i) := by
  unfold poll
  simp only [he]
  split
  · rename_i ht
    exact .idle (.inl ht)
  · rename_i ht
    exact .idle (.inr (.inl ht))
  · rename_i ht
    split
    · rename_i p hk hp
      cases hclosed : p.closed with
      | true =>
          simp only [Permits.acquire, hclosed, ↓reduceIte]
          exact .closed (.inl ⟨ht, hk, by simp [hp]⟩) (by simp [isShut, hp, hclosed])
      | false =>
          cases ha : p.available with
          | zero =>
              simp only [Permits.acquire, hclosed, ha, Bool.false_eq_true, ↓reduceIte]
              have := Visit.enqueue (i := i) ht hk hp hclosed ha
              rwa [hclosed, ha] at this
          | succ n =>
              simp only [Permits.acquire, hclosed, ha, Bool.false_eq_true, ↓reduceIte]
              have := Visit.take (i := i) ht hk hp hclosed ha
              rwa [hclosed] at this
    · rename_i hn
      refine .start (.inl ⟨ht, fun hk => ?_⟩)
      exact Option.eq_none_iff_forall_not_mem.mpr fun p hp => hn p hk hp
  · rename_i ht
    split
    · rename_i hshut
      exact .closed (.inr (by rw [ht]; rfl)) hshut
    · rename_i hopen
      exact .idle (.inr (.inr ⟨ht, by simpa [isShut] using hopen⟩))
  · rename_i ht
    split
    · rename_i hshut
      exact .closed (.inr (by rw [ht]; rfl)) hshut
    · rename_i hopen
      exact .start (.inr ⟨ht, by simpa [isShut] using hopen⟩)
  · rename_i ht
    exact .go ht

/-- What becomes of a machine when the task of request `i` is polled. -/
inductive Polled (s : Machine D) (i : Nat) (e : Entry D) : Machine D → Prop
  /-- The task does not wait for the poll. -/
  | idle (ht : e.task = .unspawned ∨ e.task = .ended ∨ e.task = .queueing ∧ s.isShut = false ∨
      e.task = .working ∧ ∀ o, e.callback ≠ .returned o) : Polled s i e s
  | closed (hs : e.Stranded s.permits) : Polled s i e (s.closeOut i)
  | enqueue {p : Permits} (ht : e.task = .fresh) (hk : e.kind = .read) (hp : s.permits = some p)
      (hc : p.closed = false) (ha : p.available = 0) :
      Polled s i e ({ s with permits := some { p with queue := p.queue ++ [i] } }.put i
        { e with task := .queueing })
  | take {p : Permits} {n : Nat} {body : Body D} (ht : e.task = .fresh) (hk : e.kind = .read)
      (hp : s.permits = some p) (hc : p.closed = false) (ha : p.available = n + 1)
      (hb : e.callback = .held (.callback body)) :
      Polled s i e (({ s with permits := some { p with available := n } }.note
        (.spawnBlocking e.kind.taskClass)).put i
          { e with task := .working, callback := .offered body })
  /-- The task needs no permit, or has one. -/
  | start {body : Body D} (ht : e.task = .fresh ∧ (e.kind = .read → s.permits = none) ∨
        e.task = .handed ∧ s.isShut = false) (hb : e.callback = .held (.callback body)) :
      Polled s i e ((s.note (.spawnBlocking e.kind.taskClass)).put i
        { e with task := .working, callback := .offered body })
  | hear {o : Outcome (Value D)} (ht : e.task = .working) (ho : e.callback = .returned o) :
      Polled s i e ((s.put i { e with callback := .spent }).push
        (panicNote e.kind o ++ [.settle i o, .endTask i]))

/-- A task at work hears its callback, if that has returned. -/
theorem polled_continueJob (hc : e.Coherent) (he : s.entries[i]? = some e)
    (ht : e.task = .working) : Polled s i e (s.continueJob i) := by
  unfold continueJob
  simp only [he]
  split
  · rename_i o ho
    exact .hear ht ho
  · rename_i v hv
    exact absurd hv (hc.unlatched v)
  · rename_i hn _
    exact .idle (.inr (.inr (.inr ⟨ht, hn⟩)))

theorem polled (hc : e.Coherent) (he : s.entries[i]? = some e) : Polled s i e (s.poll i) := by
  have hvisit := visited he
  generalize s.poll i = t at hvisit ⊢
  cases hvisit with
  | idle ht =>
      obtain ht | ht | ht := ht
      · exact .idle (.inl ht)
      · exact .idle (.inr (.inl ht))
      · exact .idle (.inr (.inr (.inl ht)))
  | closed ht hs => exact .closed ⟨ht.imp_left (And.imp_right And.right), hs⟩
  | enqueue ht hk hp hclosed ha => exact .enqueue ht hk hp hclosed ha
  | take ht hk hp hclosed ha =>
      obtain ⟨body, hb⟩ := hc.waiting (.inl ht)
      simp only [startJob, he, hb]
      exact .take ht hk hp hclosed ha hb
  | start ht =>
      obtain ⟨body, hb⟩ : ∃ body, e.callback = .held (.callback body) := by
        obtain ⟨ht, _⟩ | ⟨ht, _⟩ := ht
        · exact hc.waiting (.inl ht)
        · exact hc.waiting (.inr (.inr ht))
      simp only [startJob, he, hb]
      exact .start ht hb
  | go ht => exact polled_continueJob hc he ht

/-- A task that gives up ends, and its request is cancelled. -/
theorem edits_closeOut (he : s.entries[i]? = some e) (hs : e.Stranded s.permits) :
    Edits (.move (.poll i)) s (s.closeOut i) := by
  have hset : (s.put i { e with task := .ended }).entries[i]? = some { e with task := .ended } :=
    getElem?_set_of_some he
  have stop {u : Machine D} (hi : u.entries[i]? = some { e with task := .ended })
      (hj : ∀ {j : Nat} {b : Entry D}, j ≠ i → s.entries[j]? = some b →
        ∃ f, u.entries[j]? = some f ∧
          b.Edit (.move (.poll i)) s.register s.permits j f)
      (hl : u.entries.length = s.entries.length) :
      Edits (.move (.poll i)) s (u.cancelThen i [.endTask i]) := by
    simp only [cancelThen, trip, hi]
    refine ⟨fun {j b} hb => ?_, fun _ => by simp [push, put, hl], .inl rfl⟩
    by_cases hji : j = i
    · subst hji
      obtain rfl := Option.some.inj (he.symm.trans hb)
      exact ⟨_, getElem?_set_of_some hi, .stop rfl hs⟩
    · obtain ⟨f, hf, hbf⟩ := hj hji hb
      exact ⟨f, (List.getElem?_set_ne (Ne.symm hji)).trans hf, hbf⟩
  have other {j : Nat} {b : Entry D} (hji : j ≠ i) (hb : s.entries[j]? = some b) :
      (s.put i { e with task := .ended }).entries[j]? = some b :=
    (List.getElem?_set_ne (Ne.symm hji)).trans hb
  unfold closeOut
  simp only [he]
  split
  · refine stop ?_ (fun hji hb => ?_) (by simp [put])
    · obtain hkept | ⟨_, hq, _⟩ := entry_putPermit hset
      · exact hkept
      · cases hq
    · obtain hkept | ⟨hp, hq, hhanded⟩ := entry_putPermit (other hji hb)
      · exact ⟨_, hkept, .same⟩
      · exact ⟨_, hhanded, .hand rfl hp hq⟩
  · exact stop hset (fun hji hb => ⟨_, other hji hb, .same⟩) (by simp [put])

/-- What a poll does to requests. -/
theorem edits_poll (hc : s.Coherent) (i : Nat) : Edits (.move (.poll i)) s (s.poll i) := by
  cases he : s.entries[i]? with
  | none =>
      simp only [poll, he]
      exact .refl _ s
  | some e =>
  have h := polled (hc he) he
  generalize s.poll i = t at h ⊢
  cases h with
  | idle => exact .refl _ s
  | closed hs => exact edits_closeOut he hs
  | enqueue _ _ hp => exact .set he rfl (.enqueue rfl (by simp [hp])) (.inl rfl)
  | take ht _ _ _ _ hb => exact .set he rfl (.start rfl (.inl ht) hb) (.inl rfl)
  | start ht hb => exact .set he rfl (.start rfl (ht.imp And.left And.left) hb) (.inl rfl)
  | hear => exact .set he rfl (.hear rfl) (.inl rfl)

theorem edits_modify {g : Entry D → Entry D} (s : Machine D)
    (hg : ∀ e : Entry D, e.Edit a s.register s.permits i (g e)) : Edits a s (s.modify i g) := by
  unfold modify
  split
  · exact .refl _ s
  · rename_i e he
    exact .set he rfl (hg e) (.inr (.same rfl rfl))

/-- What a move does to requests that lets nothing go on. -/
theorem begin_edits_of_idle (m : Move D) (hb : m.isBusy = false) :
    Edits (.move m) s (m.begin s) := by
  cases m with
  | submit => exact edits_submit rfl s
  | cancel i =>
      simp only [Move.begin]
      split
      · exact edits_cancelThen rfl [] s
      · exact .refl _ s
  | cancelAll | snapshot | effects | report => exact .same rfl (.inr (.same rfl rfl))
  | pause => exact .same rfl (.inr ⟨rfl, List.Subset.refl _⟩)
  | onSettled => exact edits_onSettled rfl s
  | trip i =>
      simp only [Move.begin, trip]
      split
      · split
        · exact .refl _ s
        · rename_i e he
          exact .set he rfl (.trip rfl) (.inr (.same rfl rfl))
      · exact .refl _ s
  | awaitRequest => exact edits_modify s fun _ => .await rfl
  | takeOutcome => exact edits_modify s fun _ => .take rfl
  | dropFuture => exact edits_modify s fun _ => .dropFuture rfl
  | release i =>
      simp only [Move.begin, releaseJob]
      split
      · exact .refl _ s
      rename_i e he
      have woken : s.Frame ((s.put i { e with released := true }).wakeTask i) :=
        ⟨rfl, fun j hj => Agenda.mem_tasks_add.mpr (.inl hj)⟩
      split
      · split
        · exact .set he rfl (.release rfl) (.inr (.same rfl rfl))
        · exact .set he rfl (.release rfl) (.inr woken)
      · exact .set he rfl (.release rfl) (.inr (.same rfl rfl))
  | shutdown | poll | advance | lose => cases hb

/-- What a move does to requests. -/
theorem begin_edits (hc : s.Coherent) (m : Move D) : Edits (.move m) s (m.begin s) := by
  cases m with
  | shutdown => exact .same (entries_closeDown s) (.inl rfl)
  | poll i =>
      simp only [Move.begin]
      split
      · exact .refl _ s
      · rename_i rest _
        have := edits_poll (s := { s with ready := rest }) hc i
        exact ⟨this.entry, this.length, .inl rfl⟩
  | advance i =>
      simp only [Move.begin, advance]
      split
      · exact .refl _ s
      rename_i e he
      split
      · exact .set he rfl (.resume rfl) (.inl rfl)
      · exact .set he rfl (.resume rfl) (.inl rfl)
      · exact .refl _ s
  | lose tasks =>
      simp only [Move.begin]
      split
      · exact .same rfl (.inl rfl)
      · exact .refl _ s
  | _ => exact begin_edits_of_idle _ rfl

/-- The first work item is carried out. -/
theorem Act.edits_item (w : Work D) (s : Machine D) : Edits (.item w) s ((item w).apply s) := by
  have := exec_edits w { s with work := s.work.tail }
  exact ⟨this.entry, this.length, this.frame.imp_right fun h => ⟨h.permits, h.ready⟩⟩

/-- Whatever a machine does, it does to each request one of the things that acts do. -/
theorem Act.edits (hc : s.Coherent) (a : Act D) : Edits a s (a.apply s) := by
  cases a with
  | item w => exact edits_item w s
  | move m => exact begin_edits hc m

/-- Acts that are not busy do so whatever the jobs of the requests are. -/
theorem Act.edits_of_idle (ha : a.isBusy = false) : Edits a s (a.apply s) := by
  cases a with
  | item w => exact edits_item w s
  | move m => exact begin_edits_of_idle m ha

/-- A request that is new was submitted by the act. -/
theorem Edits.exists_submits (h : Edits a s (a.apply s)) (hn : s.entries[i]? = none)
    (hf : (a.apply s).entries[i]? = some f) : ∃ kind body, a.submits? = some (kind, body) ∧
      i = s.entries.length ∧ f = s.newcomer kind body := by
  cases ha : a.submits? with
  | none =>
      have hlt := (List.getElem?_eq_some_iff.mp hf).1
      rw [h.length ha] at hlt
      rw [List.getElem?_eq_none_iff] at hn
      omega
  | some p =>
      obtain ⟨kind, body⟩ := p
      rw [Act.entries_of_submits ha] at hf
      obtain ⟨hi, hnew⟩ | hf := getElem?_concat_cases hf
      · exact ⟨kind, body, rfl, hi, hnew⟩
      · cases hn.symm.trans hf

/-- Whoever is there after an act was there before, or was submitted by it. -/
theorem Act.entry_cases (hc : s.Coherent) (hf : (a.apply s).entries[i]? = some f) :
    (∃ e, s.entries[i]? = some e ∧ e.Edit a s.register s.permits i f) ∨
    ∃ kind body, a.submits? = some (kind, body) ∧ i = s.entries.length ∧
      f = s.newcomer kind body := by
  cases he : s.entries[i]? with
  | none => exact .inr ((Act.edits hc a).exists_submits he hf)
  | some e =>
      obtain ⟨g, hg, heg⟩ := (Act.edits hc a).entry he
      obtain rfl := Option.some.inj (hf.symm.trans hg)
      exact .inl ⟨e, rfl, heg⟩

end Machine

end RequestScheduler
