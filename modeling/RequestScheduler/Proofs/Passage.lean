import RequestScheduler.Proofs.Bound
import RequestScheduler.Proofs.Keep

/-!
# What a step does to a slot

Slots that are driven by hand have jobs of any sort, and tasks, gates and cancellations come to them
in any order. But what one step does to one slot is little: it is one of the passages listed here
(`Station.Passage`), and whatever it is, the slot is left with the work that its new station calls
for. What is to be known of the life of a slot is read off this list.

A job is seen to begin: its first event names the slot (`Machine.begun`). No other event does, as
long as no continuation pretends to be one (`Machine.Honest`).
-/

namespace RequestScheduler

variable {D : Type}

/-- The slot whose job begins with an event. -/
def Event.begun? : Event D → Option Nat
  | .start i _ | .job i _ => some i
  | _ => none

/-- The slot whose job a continuation reports to begin. -/
def Continuation.begun? : Continuation D → Option Nat
  | .announce e => e.begun?
  | _ => none

namespace Work

/-- The slot whose job a work item reports to begin. -/
def begun? : Work D → Option Nat
  | .emit e => e.begun?
  | .run k => k.begun?
  | _ => none

/-- Whether a work item neither vacates a slot nor ends a callback. -/
def isCommon : Work D → Bool
  | .openVacancy _ | .vacate _ | .endTask _ | .park .. | .finish .. => false
  | _ => true

theorem vacates?_of_isCommon {w : Work D} (h : w.isCommon = true) : w.vacates? = none := by
  cases w with
  | openVacancy | vacate | endTask => cases h
  | _ => rfl

theorem ends?_of_isCommon {w : Work D} (h : w.isCommon = true) : w.ends? = none := by
  cases w with
  | park | finish => cases h
  | _ => rfl

end Work

/-- Nothing that waits for the slot or for its request reports that a job begins. -/
def Entry.Honest (e : Entry D) : Prop :=
  ∀ k, k ∈ e.request.cell.continuations ∨ k ∈ e.vacancy.continuations → k.begun? = none

namespace Machine

/-- The slots whose jobs have begun, the latest first. -/
def begun (s : Machine D) : List Nat := s.events.filterMap Event.begun?

/-- No continuation reports that a job begins. -/
def Honest (s : Machine D) : Prop := ∀ e ∈ s.entries, e.Honest

/-- What is left in front of the other work: `new`, and what neither vacates a slot nor ends a
callback nor reports that a job begins. -/
structure Pushes (new : List (Work D)) (s t : Machine D) : Prop where
  work : ∃ l, t.work = l ++ s.work ∧ new ⊆ l ∧
    ∀ v ∈ l, v ∈ new ∨ v.isCommon = true ∧ (s.Honest → v.begun? = none)

variable {s t u : Machine D} {i : Nat} {e f : Entry D} {w : Work D} {l after new : List (Work D)}

theorem Pushes.nothing (h : t.work = s.work) : Pushes [] s t :=
  ⟨[], h, List.Subset.refl _, List.forall_mem_nil _⟩

/-- Items that neither vacate nor end nor report anything. -/
theorem Pushes.plain (h : t.work = l ++ s.work)
    (hi : ∀ v ∈ l, v.isCommon = true ∧ v.begun? = none) : Pushes [] s t :=
  ⟨l, h, List.nil_subset _, fun v hv => .inr ((hi v hv).imp_right fun hb _ => hb)⟩

/-- The continuations that were waiting are run. -/
theorem Pushes.runs {ks : List (Continuation D)} (he : s.entries[i]? = some e)
    (hk : ∀ k ∈ ks, k ∈ e.request.cell.continuations ∨ k ∈ e.vacancy.continuations)
    (ha : ∀ v ∈ after, v.isCommon = true ∧ v.begun? = none)
    (h : t.work = ks.map .run ++ after ++ s.work) : Pushes [] s t := by
  refine ⟨_, h, List.nil_subset _, fun v hv => .inr ?_⟩
  obtain hv | hv := List.mem_append.mp hv
  · obtain ⟨k, hm, rfl⟩ := List.mem_map.mp hv
    exact ⟨rfl, fun hs => hs e (List.mem_of_getElem? he) k (hk k hm)⟩
  · exact (ha v hv).imp_right fun hb _ => hb

/-- Nothing but `new` is left. -/
theorem Pushes.only (h : t.work = new ++ s.work) : Pushes new s t :=
  ⟨new, h, List.Subset.refl _, fun _ => .inl⟩

theorem pushes_cancelThen (ha : ∀ v ∈ after, v.isCommon = true ∧ v.begun? = none)
    (s : Machine D) : Pushes [] s (s.cancelThen i after) :=
  .plain (work_cancelThen i after s) (List.forall_mem_cons.mpr ⟨⟨rfl, rfl⟩, ha⟩)

theorem pushes_submit {kind : Kind} {body : Body D}
    (ha : ∀ v ∈ after, v.isCommon = true ∧ v.begun? = none) (s : Machine D) :
    Pushes [] s (s.submit kind body after) := by
  unfold submit
  dsimp only
  split
  · exact .plain (l := _ :: _ :: after) rfl (by simpa [Work.isCommon, Work.begun?] using ha)
  cases kind with
  | read =>
      dsimp only
      split
      · exact .plain (l := _ :: _ :: _ :: after) rfl
          (by simpa [Work.isCommon, Work.begun?] using ha)
      · exact .plain (l := _ :: _ :: after) rfl
          (by simpa [Work.isCommon, Work.begun?] using ha)
  | write =>
      refine .plain rfl fun v hv => ?_
      simp only [List.mem_append, List.mem_map, List.mem_cons] at hv
      obtain ⟨_, _, rfl⟩ | rfl | rfl | hv := hv
      · exact ⟨rfl, rfl⟩
      · exact ⟨rfl, rfl⟩
      · exact ⟨rfl, rfl⟩
      · exact ha v hv

theorem pushes_onSettled {tag : D} {effects : List (Effect D)}
    (ha : ∀ v ∈ after, v.isCommon = true ∧ v.begun? = none) (s : Machine D) :
    Pushes [] s (s.onSettled i tag effects after) := by
  unfold onSettled
  split
  · exact .plain (l := after) rfl ha
  split
  · exact .plain (l := _ :: after) rfl (List.forall_mem_cons.mpr ⟨⟨rfl, rfl⟩, ha⟩)
  · exact .plain (l := after) rfl ha

/-- What a client's code leaves to be done. -/
theorem pushes_perform (c : Effect D) (s : Machine D) : Pushes [] s (s.perform c) := by
  have one {v : Work D} (h : v.isCommon = true ∧ v.begun? = none) :
      ∀ w ∈ [v], w.isCommon = true ∧ w.begun? = none := by simpa using h
  cases c with
  | set | add | mul | log | status | snapshot => exact .nothing rfl
  | submit => exact pushes_submit (one ⟨rfl, rfl⟩) s
  | cancel i =>
      simp only [perform]
      split
      · exact .nothing rfl
      · exact pushes_cancelThen (one ⟨rfl, rfl⟩) s
  | cancelAll => exact .plain (l := [_, _]) rfl (by simp [Work.isCommon, Work.begun?])
  | onSettled i tag effects =>
      simp only [perform]
      split
      · exact .nothing rfl
      · exact pushes_onSettled (one ⟨rfl, rfl⟩) s

/-- What a work item leaves to be done that is for no slot. -/
theorem exec_pushes (hw : w.seat? = none) (s : Machine D) : Pushes [] s (exec w s) := by
  cases w with
  | perform c => exact pushes_perform c s
  | emit | note | reportTally => exact .nothing rfl
  | run k =>
      cases k with
      | release => exact .plain (l := [_]) rfl (by simp [Work.isCommon, Work.begun?])
      | react tag effects =>
          exact .plain (l := effects.map .perform) rfl (by simp [Work.isCommon, Work.begun?])
      | announce => exact .nothing rfl
  | settle i o =>
      simp only [exec, settle]
      split
      · exact .nothing rfl
      rename_i e he
      split
      · exact .nothing rfl
      · exact .runs he (fun _ => .inl) (List.forall_mem_nil _) (by rw [List.append_nil])
  | cancelSlot i => exact pushes_cancelThen (by simp [Work.isCommon, Work.begun?]) s
  | supersede i x =>
      simp only [exec, supersede]
      split
      · apply pushes_cancelThen
        split <;> simp [Work.isCommon, Work.begun?]
      · exact .nothing rfl
  | cancelEach ids =>
      cases ids with
      | nil => exact .nothing rfl
      | cons i ids => exact pushes_cancelThen (by simp [Work.isCommon, Work.begun?]) s
  | chain x ds =>
      refine .plain (l := ds.map (Work.await s.gates.length) ++ [.release s.gates.length])
        (by simp [exec, chain]) fun v hv => ?_
      simp only [List.mem_append, List.mem_map, List.mem_singleton] at hv
      obtain ⟨d, _, rfl⟩ | rfl := hv <;> exact ⟨rfl, rfl⟩
  | await g d =>
      simp only [exec, await]
      split
      · exact .nothing rfl
      split
      · exact .plain (l := [_]) rfl (by simp [Work.isCommon, Work.begun?])
      · exact .nothing rfl
  | release g =>
      simp only [exec, release]
      split
      · exact .nothing rfl
      split
      · exact .plain (l := [_]) rfl (by simp [Work.isCommon, Work.begun?])
      · exact .nothing rfl
  | handOver =>
      simp only [exec, handOver]
      split <;> exact .nothing rfl
  | _ => cases hw

/-- What vacates a slot, and nothing else of note, is left to be done. -/
def Clears (s t : Machine D) : Prop := ∃ new, (∀ v ∈ new, v.vacates?.isSome = true) ∧ Pushes new s t

theorem Pushes.clears (h : Pushes [] s t) : Clears s t := ⟨[], List.forall_mem_nil _, h⟩

/-- What a work item leaves to be done. -/
theorem exec_clears (w : Work D) (s : Machine D) : Clears s (exec w s) := by
  have nothing {t : Machine D} (h : t.work = s.work) : Clears s t := (Pushes.nothing h).clears
  have one {t : Machine D} {v : Work D} (hv : v.vacates?.isSome = true)
      (h : t.work = v :: s.work) : Clears s t := ⟨[v], by simpa using hv, .only h⟩
  have skip (i : Nat) : Clears s (s.skip i) := by
    unfold Machine.skip
    split
    · exact nothing rfl
    split
    · exact one rfl rfl
    · exact nothing rfl
  cases hseat : w.seat? with
  | none => exact (exec_pushes hseat s).clears
  | some j =>
  cases w with
  | skip i => exact skip i
  | openVacancy i =>
      simp only [exec, openVacancy]
      split
      · exact nothing rfl
      rename_i e he
      split
      · exact nothing rfl
      · exact (Pushes.runs he (fun _ => .inr) (List.forall_mem_nil _) rfl).clears
  | vacate i =>
      simp only [exec, vacate]
      split
      · exact nothing rfl
      rename_i e he
      have hset := getElem?_set_of_some (b := { e with stage := .vacated }) he
      simp only [openVacancy, put, hset]
      split
      · exact nothing rfl
      · exact (Pushes.runs he (fun _ => .inr) (by simp [Work.isCommon, Work.begun?]) rfl).clears
  | dispatch i =>
      simp only [exec, dispatch]
      split
      · exact nothing rfl
      split
      · split
        · exact skip i
        split
        · exact nothing rfl
        · exact one rfl rfl
      · exact nothing rfl
  | endTask i =>
      have ended {t : Machine D}
          (h : t.work = [.settle i (.error .cancelled), .vacate i] ++ s.work) : Clears s t :=
        ⟨[.vacate i], by simp [Work.vacates?], _, h, by simp,
          by simp [Work.isCommon, Work.begun?]⟩
      simp only [exec, endTask]
      split
      · exact nothing rfl
      split <;> exact ended (by simp [push, put])
  | park | finish =>
      simp only [exec, park, finish]
      repeat' split
      all_goals exact nothing rfl
  | _ => cases hseat

/-- What a move leaves to be done that lets nothing go on. -/
theorem begin_pushes (m : Move D) (hb : m.isBusy = false) (s : Machine D) :
    Pushes [] s (m.begin s) := by
  have none : ∀ v ∈ ([] : List (Work D)), v.isCommon = true ∧ v.begun? = none :=
    List.forall_mem_nil _
  have modified (i : Nat) (g : Entry D → Entry D) : Pushes [] s (s.modify i g) := by
    unfold modify
    split <;> exact .nothing rfl
  cases m with
  | submit => exact pushes_submit none s
  | cancel i =>
      simp only [Move.begin]
      split
      · exact pushes_cancelThen none s
      · exact .nothing rfl
  | cancelAll => exact .plain (l := [_]) rfl (by simp [Work.isCommon, Work.begun?])
  | snapshot | report | pause => exact .nothing rfl
  | onSettled => exact pushes_onSettled none s
  | effects es =>
      exact .plain (l := es.map .perform) rfl (by simp [Work.isCommon, Work.begun?])
  | trip i =>
      simp only [Move.begin]
      split
      · exact .nothing (work_trip i s)
      · exact .nothing rfl
  | awaitRequest | takeOutcome | dropFuture => exact modified _ _
  | release i => exact .nothing (work_releaseJob i s)
  | shutdown | poll | advance | lose => cases hb

/-- The slot is in line for a permit, or is about to hear that there is none to be had. -/
def InLine (s : Machine D) (i : Nat) : Prop := s.InQueue i ∨ s.isShut = true ∧ i ∈ s.ready.tasks

/-- What keeps slot `i` going while its task is at `task` stays. -/
structure Minds (i : Nat) (task : Task) (s t : Machine D) : Prop where
  work : ∀ {v : Work D}, v ∈ s.work → v.vacates? = some i → v ∈ t.work
  ready : task = .fresh ∨ task = .handed → i ∈ s.ready.tasks → i ∈ t.ready.tasks
  line : task = .queueing → s.InLine i → t.InLine i

theorem Keeps.minds {task : Task} (h : Keeps i s t) : Minds i task s t :=
  ⟨h.work, fun _ => h.ready, fun _ => Or.imp h.queue (And.imp h.shut h.ready)⟩

end Machine

/-- Whether the job has been started and is not over. -/
def Callback.isUnderway : Callback D → Bool
  | .offered _ | .running | .parked _ | .returned _ | .latched _ => true
  | _ => false

/-- Whether the task of a slot that was dispatched has its job still to start. -/
def Task.isWaiting : Task → Bool
  | .fresh | .queueing | .handed => true
  | _ => false

/-- Where a slot stands on its way from the queue, and what is going to happen to it. -/
inductive Station.Phase (s : Machine D) (i : Nat) (b : Station D) : Prop
  /-- The submission had no slot. -/
  | refused (hs : b.stage = .refused) (hv : b.vacated = false) (ht : b.task = .unspawned)
      (hc : b.callback = .dropped)
  | queued (hs : b.stage = .queued) (hv : b.vacated = false) (ht : b.task = .unspawned)
      (hc : ∃ job, b.callback = .held job)
  | skipped (hs : b.stage = .vacated) (hv : b.vacated = true ∨ .openVacancy i ∈ s.work)
      (ht : b.task = .unspawned) (hc : b.callback = .dropped)
  | waiting (hs : b.stage = .dispatched) (hv : b.vacated = false) (ht : b.task.isWaiting = true)
      (hk : b.task.isServed = true → b.kind = .read ∧ s.closing? ≠ none)
      (hc : ∃ job, b.callback = .held job)
      (hw : .endTask i ∈ s.work ∨
        s.live = true ∧ if b.task = .queueing then s.InLine i else i ∈ s.ready.tasks)
  | working (hs : b.stage = .dispatched) (hv : b.vacated = false) (ht : b.task = .working)
      (hc : b.callback.isUnderway = true ∨ b.callback = .spent)
      (hw : .endTask i ∈ s.work ∨ s.live = true ∧ b.callback.isUnderway = true)
  | ended (ht : b.task = .ended)
      (hs : b.stage = .vacated ∧ b.vacated = true ∨
        b.stage = .dispatched ∧ b.vacated = false ∧ (.endTask i ∈ s.work ∨ .vacate i ∈ s.work))
      (hb : ∀ body, b.callback ≠ .offered body)
      (hc : s.live = true → b.callback = .spent ∨
        (b.callback = .dropped ∨ ∃ job, b.callback = .held job) ∧
          b.kind = .read ∧ s.closing? = some true)

/-- What one step does to slot `i`, with the work that it leaves and that vacates the slot. -/
inductive Station.Passage (s t : Machine D) (i : Nat) (b : Station D) :
    List (Work D) → Station D → Prop
  | stay (hm : Machine.Minds i b.task s t) : Passage s t i b [] b
  | skip (hq : b.stage = .queued) :
      Passage s t i b [.openVacancy i] { b with stage := .vacated, callback := .dropped }
  | dispatch (hq : b.stage = .queued) (hl : s.live = true) (hr : i ∈ t.ready.tasks) :
      Passage s t i b [] { b with stage := .dispatched, task := .fresh }
  /-- There is no runtime to dispatch the slot to. -/
  | drop (hq : b.stage = .queued) (hl : s.live = false) :
      Passage s t i b [.endTask i] { b with stage := .dispatched, task := .ended }
  | openVacancy (hw : .openVacancy i ∈ s.work) : Passage s t i b [] { b with vacated := true }
  | vacate (hw : .vacate i ∈ s.work) :
      Passage s t i b [] { b with stage := .vacated, vacated := true }
  | endTask (hw : .endTask i ∈ s.work) :
      Passage s t i b [.vacate i] { b with task := .ended, callback := b.callback.close }
  /-- The callback parks or returns. -/
  | yield {c : Callback D} (hw : ∃ w, s.work.head? = some w ∧ w.ends? = some i)
      (hc : c.isUnderway = true ∧ c.isWaiting = false ∨ c = .spent ∧ b.task ≠ .working)
      (hm : Machine.Minds i b.task s t) : Passage s t i b [] { b with callback := c }
  /-- The callback begins, or goes on. -/
  | resume (hs : s.work = [])
      (hb : b.callback.isUnderway = true) (hm : Machine.Minds i b.task s t) :
      Passage s t i b [] { b with callback := .running }
  | enqueue (hs : s.work = []) (ht : b.task = .fresh) (hk : b.kind = .read)
      (hp : t.closing? ≠ none) (hq : t.InLine i) :
      Passage s t i b [] { b with task := .queueing }
  /-- The task is handed a permit that came back. -/
  | hand (ht : b.task = .queueing)
      (hw : ∀ {v : Work D}, v ∈ s.work → v.vacates? = some i → v ∈ t.work)
      (hr : i ∈ t.ready.tasks) : Passage s t i b [] { b with task := .handed }
  /-- The task finds the permits closed. -/
  | stop (hs : s.work = []) (ht : b.task.isWaiting = true) (hk : b.kind = .read)
      (hp : s.closing? = some true) : Passage s t i b [.endTask i] { b with task := .ended }
  | start {c : Callback D} (hs : s.work = []) (ht : b.task = .fresh ∨ b.task = .handed)
      (hp : b.kind = .read → s.closing? ≠ some true) (hc : c.isUnderway = true) :
      Passage s t i b [] { b with task := .working, callback := c }
  /-- The job is started, and is over at once. -/
  | finish (hs : s.work = []) (ht : b.task = .fresh ∨ b.task = .handed)
      (hp : b.kind = .read → s.closing? ≠ some true) :
      Passage s t i b [.endTask i] { b with task := .working, callback := .spent }
  /-- The job is over. -/
  | hear (hs : s.work = []) (ht : b.task = .working) (hb : b.callback.isUnderway = true) :
      Passage s t i b [.endTask i] { b with callback := .spent }

namespace Machine

/-- Every slot makes a passage. -/
structure Passes (s t : Machine D) : Prop where
  entry : ∀ {i : Nat} {e : Entry D}, s.entries[i]? = some e → ∃ f new,
    t.entries[i]? = some f ∧ e.station.Passage s t i new f.station ∧ new ⊆ t.work ∧
      ∀ v ∈ t.work, v.vacates? = some i → v ∈ s.work ∨ v ∈ new
  /-- Whoever is new has no task yet, and nothing vacates its slot. -/
  newcomer : ∀ {i : Nat} {f : Entry D}, s.entries[i]? = none → t.entries[i]? = some f →
    f.station.Phase t i ∧ f.task = .unspawned ∧ f.stage ≠ .vacated
  work : ∀ {v : Work D} {i : Nat}, v ∈ t.work → v.vacates? = some i →
    v ∈ s.work ∨ s.entries[i]? ≠ none
  live : t.live = s.live
  closing : t.closing? = s.closing? ∨ t.closing? = some true

variable {s t u v : Machine D} {i j : Nat} {e f : Entry D} {w : Work D}
  {l rest new : List (Work D)}

/-- What is left either was there, or is new. -/
theorem Pushes.mem (h : Pushes new s t) {v : Work D} (hv : v ∈ t.work)
    (hi : v.vacates? = some i) : v ∈ s.work ∨ v ∈ new := by
  obtain ⟨l, hw, _, hl⟩ := h.work
  rw [hw] at hv
  obtain hv | hv := List.mem_append.mp hv
  · refine .inr ((hl v hv).resolve_right fun hc => ?_)
    simp [Work.vacates?_of_isCommon hc.1] at hi
  · exact .inl hv

theorem Pushes.subset (h : Pushes new s t) : new ⊆ t.work := by
  obtain ⟨l, hw, hn, _⟩ := h.work
  exact hw ▸ fun _ hv => List.mem_append_left _ (hn hv)

theorem Pushes.subset_work (h : Pushes new s t) : s.work ⊆ t.work := by
  obtain ⟨l, hw, _, _⟩ := h.work
  exact hw ▸ List.subset_append_right _ _

/-- All stations stay as they are. -/
theorem Passes.steady (hst : s.Steady t) (hl : t.live = s.live) (hp : Pushes [] u t)
    (hu : u.work ⊆ s.work) (hw : ∀ {v : Work D} {i : Nat}, v ∈ s.work → v.vacates? = some i →
      v ∈ u.work)
    (hn : ∀ {i : Nat} {f : Entry D}, s.entries[i]? = none → t.entries[i]? = some f →
      f.station.Phase t i) : Passes s t where
  entry {i e} he := by
    obtain ⟨f, hf, hef⟩ := hst.entry he
    have hk : Keeps i s t :=
      .of_permits hst.permits (fun hv hi => hp.subset_work (hw hv hi)) fun hi => hst.ready hi
    refine ⟨f, [], hf, hef ▸ .stay hk.minds, List.nil_subset _, fun v hv hi => ?_⟩
    exact (hp.mem hv hi).imp_left fun h => hu h
  newcomer hs hf := by
    obtain ⟨e, he, _⟩ | ⟨_, ht, hv⟩ := hst.cases hf
    · cases hs.symm.trans he
    · exact ⟨hn hs hf, ht, hv⟩
  work hv hi := .inl (hu ((hp.mem hv hi).resolve_right List.not_mem_nil))
  live := hl
  closing := .inl (by rw [closing?, hst.permits, closing?])

/-- One slot makes a passage, and a permit that it gives back may reach another. -/
theorem Passes.of_change (he : s.entries[j]? = some e) (hf : t.entries[j]? = some f)
    (hpass : e.station.Passage s t j new f.station) (hn : ∀ v ∈ new, v.vacates? = some j)
    (ho : ∀ {i : Nat}, i ≠ j → v.entries[i]? = s.entries[i]?)
    (hk : ∀ {i : Nat}, i ≠ j → Keeps i s v) (hh : v.Hands t) (hsub : new ⊆ t.work)
    (hmem : ∀ {w : Work D} {i : Nat}, w ∈ t.work → w.vacates? = some i → w ∈ s.work ∨ w ∈ new)
    (hl : t.live = s.live)
    (hc : t.closing? = s.closing? ∨ t.closing? = some true) : Passes s t where
  entry {i a} ha := by
    by_cases hij : i = j
    · subst hij
      obtain rfl := Option.some.inj (he.symm.trans ha)
      exact ⟨f, new, hf, hpass, hsub, fun w hw hi => hmem hw hi⟩
    have hold {w : Work D} (hw : w ∈ t.work) (hi : w.vacates? = some i) : w ∈ s.work := by
      refine (hmem hw hi).resolve_right fun hm => hij ?_
      exact Option.some.inj (hi.symm.trans (hn w hm))
    obtain hsame | ⟨hq, hhanded, hr⟩ := hh.entry ((ho hij).trans ha)
    · refine ⟨a, [], hsame, .stay ⟨fun hv hi => hh.work ▸ (hk hij).work hv hi,
        fun _ hi => hh.ready ((hk hij).ready hi), fun ht hi => ?_⟩, List.nil_subset _,
        fun w hw hi => .inl (hold hw hi)⟩
      obtain hi | ⟨hs, hi⟩ := hi
      · refine .inl ((hh.queue ((hk hij).queue hi)).resolve_right fun hg => ?_)
        cases ht.symm.trans (hg.of_entry hsame)
      · exact .inr ⟨hh.shut.trans ((hk hij).shut hs), hh.ready ((hk hij).ready hi)⟩
    · exact ⟨_, [], hhanded, .hand hq (fun hv hi => hh.work ▸ (hk hij).work hv hi) hr,
        List.nil_subset _, fun w hw hi => .inl (hold hw hi)⟩
  newcomer {i a} hs ha := by
    have hij : i ≠ j := by
      rintro rfl
      cases he.symm.trans hs
    have hlt : i < v.entries.length := hh.length ▸ (List.getElem?_eq_some_iff.mp ha).1
    rw [← ho hij, List.getElem?_eq_none_iff] at hs
    omega
  work {w i} hw hi := by
    refine (hmem hw hi).imp_right fun hm => ?_
    obtain rfl := Option.some.inj (hi.symm.trans (hn w hm))
    simp [he]
  live := hl
  closing := hc

/-- A work item is for one slot, and that slot makes a passage. -/
theorem Passes.of_seat (hw : s.work = w :: rest) (hj : w.seat? = some j)
    (he : s.entries[j]? = some e) (ht : t.entries = s.entries.set j f)
    (hpass : e.station.Passage s t j new f.station) (hn : ∀ v ∈ new, v.vacates? = some j)
    (htp : t.permits = s.permits) (htr : s.ready.tasks ⊆ t.ready.tasks) (hl : t.live = s.live)
    (hp : Pushes new { s with work := rest } t) : Passes s t := by
  obtain ⟨l, htw, _⟩ := hp.work
  refine .of_change he ?_ hpass hn (fun hij => by rw [ht, List.getElem?_set_ne (Ne.symm hij)])
    (fun hij => .of_seat hw hj htw htp htr hij) (.refl t) hp.subset (fun hv hi => ?_) hl (.inl ?_)
  · rw [ht, getElem?_set_of_some he]
  · exact (hp.mem hv hi).imp_left fun hm => hw ▸ List.mem_cons_of_mem _ hm
  · rw [closing?, htp, closing?]

/-- A work item finds nothing to do. -/
theorem Passes.idle (hw : s.work = w :: rest)
    (hv : ∀ {i : Nat}, w.vacates? = some i → s.entries[i]? = none) :
    Passes s { s with work := rest } where
  entry {i e} he := by
    have hk : Keeps i s { s with work := rest } := by
      refine .of_permits rfl (fun hm hi => ?_) id
      rw [hw] at hm
      refine (List.mem_cons.mp hm).resolve_left ?_
      rintro rfl
      cases (hv hi).symm.trans he
    exact ⟨e, [], he, .stay hk.minds, List.nil_subset _,
      fun v hm _ => .inl (hw ▸ List.mem_cons_of_mem _ hm)⟩
  newcomer hs hf := by cases hs.symm.trans hf
  work hm _ := .inl (hw ▸ List.mem_cons_of_mem _ hm)
  live := rfl
  closing := .inl rfl

/-- What a submission brings in has its place at the start of the way, or none. -/
theorem phase_newcomer (s t : Machine D) (kind : Kind) (body : Body D) (i : Nat) :
    (s.newcomer kind body).station.Phase t i := by
  unfold newcomer
  split
  · exact .refused rfl rfl rfl rfl
  · exact .queued rfl rfl rfl ⟨_, rfl⟩

/-- Acts that are not busy bring in nothing but submissions. -/
theorem phase_of_idle {a : Act D} (ha : a.isBusy = false) (hs : s.entries[i]? = none)
    (hf : (a.apply s).entries[i]? = some f) : f.station.Phase (a.apply s) i := by
  obtain ⟨kind, body, _, _, rfl⟩ := (Act.edits_of_idle ha).exists_submits hs hf
  exact phase_newcomer ..

theorem passes_skip (hw : s.work = w :: rest) (hj : w.seat? = some j) (hv : w.vacates? = none) :
    Passes s ({ s with work := rest }.skip j) := by
  have idle : Passes s { s with work := rest } := .idle hw fun hi => by simp [hv] at hi
  unfold skip
  split
  · exact idle
  rename_i e he
  split
  · rename_i hq
    exact .of_seat hw hj he rfl (.skip hq) (by simp [Work.vacates?]) rfl (List.Subset.refl _) rfl
      (.only rfl)
  · exact idle

theorem passes_dispatch (hw : s.work = .dispatch j :: rest) :
    Passes s ({ s with work := rest }.dispatch j) := by
  have idle : Passes s { s with work := rest } := .idle hw fun hi => by cases hi
  unfold dispatch
  split
  · exact idle
  rename_i e he
  split
  · rename_i hq
    split
    · exact passes_skip hw rfl rfl
    split
    · rename_i hl
      have hready {i : Nat} (hi : i ∈ s.ready.tasks ∨ i = j) : i ∈ (s.ready.add j).tasks :=
        Agenda.mem_tasks_add.mpr hi
      exact .of_seat hw rfl he rfl (.dispatch hq hl (hready (.inr rfl))) (List.forall_mem_nil _)
        rfl (fun i hi => hready (.inl hi)) rfl (.nothing rfl)
    · rename_i hl
      exact .of_seat hw rfl he rfl (.drop hq (by simpa using hl)) (by simp [Work.vacates?]) rfl
        (List.Subset.refl _) rfl (.only rfl)
  · exact idle

theorem passes_openVacancy (hw : s.work = .openVacancy j :: rest) :
    Passes s ({ s with work := rest }.openVacancy j []) := by
  have hm : Work.openVacancy j ∈ s.work := hw ▸ List.mem_cons_self
  unfold openVacancy
  split
  · rename_i hn
    refine .idle hw fun hi => ?_
    obtain rfl := Option.some.inj hi
    exact hn
  rename_i e he
  split
  · rename_i hv
    have hset : s.entries = s.entries.set j e := by
      obtain ⟨hl, rfl⟩ := List.getElem?_eq_some_iff.mp he
      exact (List.set_getElem_self hl).symm
    have hsame : { e.station with vacated := true } = e.station := by
      simp [Entry.station, Entry.isVacated, show e.vacancy.isSettled = true from hv]
    exact .of_seat hw rfl he hset (hsame ▸ .openVacancy hm) (List.forall_mem_nil _) rfl
      (List.Subset.refl _) rfl (.nothing rfl)
  · have hopen : ({ e with vacancy := e.vacancy.settle () } : Entry D).station =
        { e.station with vacated := true } := by simp [Entry.station, Entry.isVacated]
    exact .of_seat hw rfl he rfl (hopen ▸ .openVacancy hm) (List.forall_mem_nil _) rfl
      (List.Subset.refl _) rfl
      (.runs (s := { s with work := rest }) he (fun _ => .inr) (List.forall_mem_nil _) rfl)

theorem passes_vacate (hw : s.work = .vacate j :: rest) :
    Passes s ({ s with work := rest }.vacate j) := by
  have hm : Work.vacate j ∈ s.work := hw ▸ List.mem_cons_self
  unfold vacate
  split
  · rename_i hn
    refine .idle hw fun hi => ?_
    obtain rfl := Option.some.inj hi
    exact hn
  rename_i e he
  have hset := getElem?_set_of_some (b := { e with stage := .vacated }) he
  simp only [openVacancy, put, hset, List.set_set]
  split
  · rename_i hv
    have hleft : ({ e with stage := .vacated } : Entry D).station =
        { e.station with stage := .vacated, vacated := true } := by
      simp [Entry.station, Entry.isVacated, show e.vacancy.isSettled = true from hv]
    exact .of_seat hw rfl he rfl (hleft ▸ .vacate hm) (List.forall_mem_nil _) rfl
      (List.Subset.refl _) rfl (.nothing rfl)
  · have hleft : ({ e with stage := .vacated, vacancy := e.vacancy.settle () } : Entry D).station =
        { e.station with stage := .vacated, vacated := true } := by
      simp [Entry.station, Entry.isVacated]
    exact .of_seat hw rfl he rfl (hleft ▸ .vacate hm) (List.forall_mem_nil _) rfl
      (List.Subset.refl _) rfl (.runs (s := { s with work := rest }) he (fun _ => .inr)
        (by simp [Work.isCommon, Work.begun?]) rfl)

/-- The callback parks or returns. -/
theorem passes_yield {c : Callback D} (hw : s.work = w :: rest) (hj : w.ends? = some j)
    (he : s.entries[j]? = some e) (ht : t.entries = s.entries.set j { e with callback := c })
    (hc : c.isUnderway = true ∧ c.isWaiting = false ∨ c = .spent ∧ e.task ≠ .working)
    (htp : t.permits = s.permits) (htr : s.ready.tasks ⊆ t.ready.tasks) (hl : t.live = s.live)
    (htw : t.work = rest) : Passes s t := by
  have hseat : w.seat? = some j := by
    cases w with
    | park | finish => exact hj
    | _ => cases hj
  have hvac : w.vacates? = none := by
    cases w with
    | park | finish => rfl
    | _ => cases hj
  have hk : Keeps j s t := by
    refine .of_permits htp (fun hm hi => ?_) fun hi => htr hi
    rw [hw] at hm
    rw [htw]
    refine (List.mem_cons.mp hm).resolve_left ?_
    rintro rfl
    simp [hvac] at hi
  exact .of_seat hw hseat he ht (.yield ⟨w, by rw [hw]; rfl, hj⟩ hc hk.minds)
    (List.forall_mem_nil _) htp htr hl (.nothing htw)

variable {bound : Option Nat}

/-- A task ends, and its permit goes on. -/
theorem passes_endTask (hm : Metered bound 0 s) (hw : s.work = .endTask j :: rest) :
    Passes s ({ s with work := rest }.endTask j) := by
  have hmem : Work.endTask j ∈ s.work := hw ▸ List.mem_cons_self
  have hclosing := closing?_endTask j { s with work := rest }
  have hlive := live_exec (.endTask j) { s with work := rest }
  simp only [exec] at hlive
  revert hclosing hlive
  unfold endTask
  split
  · rename_i hn
    refine fun _ _ => .idle hw fun hi => ?_
    obtain rfl := Option.some.inj hi
    exact hn
  rename_i e he
  have he : s.entries[j]? = some e := he
  generalize hf : ({ e with task := .ended, callback := e.callback.close } : Entry D) = f
  generalize hu : put j f { s with work := rest, ready := s.ready.remove j } = u
  have hue : u.entries = s.entries.set j f := by rw [← hu]; rfl
  have hup : u.permits = s.permits := by rw [← hu]; rfl
  have huw : u.work = rest := by rw [← hu]; rfl
  have hended : f.task = .ended := by rw [← hf]
  have hzero : f.station.charge = 0 := charge_of_task (by simp [hended]) (by simp [hended])
  have hset : u.entries[j]? = some f := by
    rw [hue, getElem?_set_of_some he]
  have other {i : Nat} (hij : i ≠ j) : u.entries[i]? = s.entries[i]? := by
    rw [hue, List.getElem?_set_ne (Ne.symm hij)]
  have hstation : f.station = { e.station with task := .ended, callback := e.callback.close } := by
    rw [← hf]
    rfl
  have kept {i : Nat} {v : Work D} {l : List (Work D)} (hij : i ≠ j) (hv : v ∈ s.work)
      (hi : v.vacates? = some i) : v ∈ l ++ u.work := by
    rw [hw] at hv
    rw [huw]
    refine List.mem_append_right _ ((List.mem_cons.mp hv).resolve_left ?_)
    rintro rfl
    exact hij (Option.some.inj hi).symm
  have ready {i : Nat} (hij : i ≠ j) (hi : i ∈ s.ready.tasks) : i ∈ u.ready.tasks := by
    rw [← hu]
    exact Agenda.mem_tasks_remove.mpr ⟨hi, hij⟩
  -- What the end of the task leaves to be done comes in front of the rest.
  have last {v t : Machine D} (hv : ∀ {i : Nat}, i ≠ j → v.entries[i]? = s.entries[i]?)
      (hk : ∀ {i : Nat}, i ≠ j → Keeps i s v) (hh : v.Hands t)
      (ht : t.entries[j]? = some f)
      (htw : t.work = [.settle j (.error .cancelled), .vacate j] ++ rest)
      (hc : t.closing? = s.closing?) (hl : t.live = s.live) : Passes s t := by
    refine .of_change he ht (hstation ▸ Station.Passage.endTask hmem) (by simp [Work.vacates?]) hv
      hk hh (by simp [htw]) (fun {w i} hm hi => ?_) hl (.inl hc)
    rw [htw] at hm
    obtain hm | hm := List.mem_append.mp hm
    · obtain rfl | hm := List.mem_cons.mp hm
      · cases hi
      · exact .inr hm
    · exact .inl (hw ▸ List.mem_cons_of_mem _ hm)
  have stays {i : Nat} (hij : i ≠ j) :
      Keeps i s (u.push [.settle j (.error .cancelled), .vacate j]) :=
    .of_permits hup (kept hij) (ready hij)
  have back (hc : e.station.charge = 1) (ht : e.task ≠ .queueing)
      (hcl : (u.putPermit.push [.settle j (.error .cancelled), .vacate j]).closing? = s.closing?)
      (hl : (u.putPermit.push [.settle j (.error .cancelled), .vacate j]).live = s.live) :
      Passes s (u.putPermit.push [.settle j (.error .cancelled), .vacate j]) := by
    have hone : Metered bound 1 u := hm.set he hue hup (by rw [← hf])
      (.inr ⟨by simp [hended], hm.not_mem_queue he ht⟩) (by rw [hzero, hc])
    refine last (v := u.push _) other stays ((hands_putPermit hone).push _) ?_ ?_ hcl hl
    · obtain hkept | ⟨_, hq, _⟩ := entry_putPermit hset
      · exact hkept
      · cases hended.symm.trans hq
    · simp [push, huw]
  dsimp only
  split
  · rename_i hk ht
    exact back (by simp [Entry.station, Station.charge, hk, ht]) (by simp [ht])
  · rename_i hk ht
    exact back (by simp [Entry.station, Station.charge, hk, ht]) (by simp [ht])
  · refine fun hcl hl => last
      (v := { u with permits := u.permits.map (Permits.leave j) }.push _) other
      (fun {i} hij => ⟨kept hij, ready hij, ?_, fun hs => ?_⟩) (.refl _) hset
      (by simp [push, huw]) hcl hl
    · rintro ⟨p, hp, hi⟩
      exact ⟨p.leave j, by simp [push, hup, hp], by simpa [Permits.leave] using ⟨hi, hij⟩⟩
    · simpa [isShut, push, hup, Function.comp_def, Permits.leave] using hs
  · exact fun hcl hl =>
      last (v := u.push _) other stays (.refl _) hset (by simp [push, huw]) hcl hl

/-- Every work item lets every slot make a passage. -/
theorem exec_passes (hm : Metered bound 0 s) (hw : s.work = w :: rest) :
    Passes s (exec w { s with work := rest }) := by
  cases hseat : w.seat? with
  | none =>
      have hidle : (Act.item w).isBusy = false := by simp [Act.isBusy, hseat]
      have hvac (i : Nat) : w.vacates? ≠ some i := fun hi => by
        cases hseat.symm.trans (Work.seat?_of_vacates? hi)
      have hst : s.Steady ((Act.item w).apply s) := Act.steady hidle
      have hnew {i : Nat} {f : Entry D} := phase_of_idle (s := s) (i := i) (f := f) hidle
      rw [Act.apply_item hw] at hst
      simp only [Act.apply_item hw] at hnew
      refine .steady hst (live_exec ..) (exec_pushes hseat _) (hw ▸ List.subset_cons_self _ _)
        (fun {v i} hv hi => ?_) hnew
      rw [hw] at hv
      refine (List.mem_cons.mp hv).resolve_left ?_
      rintro rfl
      exact hvac i hi
  | some j =>
  cases w with
  | skip i => exact passes_skip hw rfl rfl
  | dispatch i => exact passes_dispatch hw
  | openVacancy i => exact passes_openVacancy hw
  | vacate i => exact passes_vacate hw
  | endTask i => exact passes_endTask hm hw
  | park i body =>
      simp only [exec, park]
      split
      · exact .idle hw fun hi => by cases hi
      · rename_i e he
        exact passes_yield hw rfl he rfl (.inl ⟨rfl, rfl⟩) rfl (List.Subset.refl _) rfl rfl
  | finish i r =>
      simp only [exec, finish]
      split
      · exact .idle hw fun hi => by cases hi
      rename_i e he
      split
      · exact passes_yield hw rfl he rfl (.inl ⟨rfl, rfl⟩) rfl
          (fun i hi => Agenda.mem_tasks_add.mpr (.inl hi)) rfl rfl
      · rename_i ht
        exact passes_yield hw rfl he rfl (.inr ⟨rfl, ht⟩) rfl (List.Subset.refl _) rfl rfl
  | _ => cases hseat

/-- Nobody but slot `i` was changed, and `new` is left to be done. -/
structure Swaps (i : Nat) (f : Entry D) (new : List (Work D)) (s t : Machine D) : Prop where
  entries : t.entries = s.entries.set i f
  permits : t.permits = s.permits
  ready : t.ready = s.ready
  live : t.live = s.live
  pushes : Pushes new s t

/-- A task starts its job, which is under way then, or over. It is seen to begin unless it was only
handed on to the pool of threads. -/
theorem swaps_startJob {job : Job D} (he : s.entries[i]? = some e) (hb : e.callback = .held job) :
    ∃ c new, Swaps i { e with task := .working, callback := c } new s (s.startJob i) ∧
      (c.isUnderway = true ∧ new = [] ∨ c = .spent ∧ new = [.endTask i]) ∧
      (s.startJob i).begun = if c.hasBegun then i :: s.begun else s.begun := by
  simp only [startJob, he, hb]
  cases job with
  | callback body => exact ⟨_, [], ⟨rfl, rfl, rfl, rfl, .nothing rfl⟩, .inl ⟨rfl, rfl⟩, rfl⟩
  | immediate outcome =>
      refine ⟨.spent, [.endTask i], ⟨rfl, rfl, rfl, rfl, ⟨_, rfl, by simp, fun v hv => ?_⟩⟩,
        .inr ⟨rfl, rfl⟩, rfl⟩
      obtain hv | hv := List.mem_append.mp hv
      · obtain ⟨o, _, rfl⟩ := Option.map_eq_some_iff.mp (Option.mem_toList.mp hv)
        exact .inr ⟨rfl, fun _ => rfl⟩
      · exact .inl hv
  | latched value =>
      dsimp only
      split
      · refine ⟨.spent, [.endTask i], ⟨rfl, rfl, rfl, rfl, ⟨_, rfl, by simp, ?_⟩⟩,
          .inr ⟨rfl, rfl⟩, rfl⟩
        simp [Work.isCommon, Work.begun?]
      · exact ⟨_, [], ⟨rfl, rfl, rfl, rfl, .nothing rfl⟩, .inl ⟨rfl, rfl⟩, rfl⟩

/-- A task hears that its job is over, or has nothing to hear. -/
theorem swaps_continueJob (he : s.entries[i]? = some e) : s.continueJob i = s ∨
    e.callback.isUnderway = true ∧ e.callback.hasBegun = true ∧
      Swaps i { e with callback := .spent } [.endTask i] s (s.continueJob i) ∧
      (s.continueJob i).begun = s.begun := by
  simp only [continueJob, he]
  split
  · rename_i o ho
    refine .inr ⟨by rw [ho]; rfl, by rw [ho]; rfl,
      ⟨rfl, rfl, rfl, rfl, ⟨_, rfl, by simp, fun v hv => ?_⟩⟩, rfl⟩
    simp only [panicNote, List.mem_append, List.mem_map, List.mem_cons, List.not_mem_nil,
      or_false] at hv ⊢
    obtain ⟨a, _, rfl⟩ | rfl | rfl := hv
    · exact .inr ⟨rfl, fun _ => rfl⟩
    · exact .inr ⟨rfl, fun _ => rfl⟩
    · exact .inl rfl
  · rename_i v hv
    split
    · refine .inr ⟨by rw [hv]; rfl, by rw [hv]; rfl, ⟨rfl, rfl, rfl, rfl, ⟨_, rfl, by simp, ?_⟩⟩,
        rfl⟩
      simp [Work.isCommon, Work.begun?]
    · exact .inl rfl
  · exact .inl rfl

/-- A poll that nobody waits for. -/
theorem Passes.of_pick {a : Agenda} (hw : s.work = []) (hp : s.ready.pick? j = some a)
    (hj : ∀ {e : Entry D}, s.entries[j]? = some e →
      e.task ≠ .fresh ∧ e.task ≠ .handed ∧ (e.task = .queueing → s.isShut = false)) :
    Passes s { s with ready := a } where
  entry {i e} he := by
    have none {v : Work D} (hv : v ∈ s.work) : False := by simp [hw] at hv
    refine ⟨e, [], he, .stay ⟨fun hv => (none hv).elim, fun ht hi => ?_, fun ht hi => ?_⟩,
      List.nil_subset _, fun v hv => (none hv).elim⟩
    · refine (Agenda.mem_tasks_of_pick? hp).2 hi ?_
      rintro rfl
      exact ht.elim (hj he).1 (hj he).2.1
    · refine hi.imp id fun hs => ⟨hs.1, (Agenda.mem_tasks_of_pick? hp).2 hs.2 ?_⟩
      rintro rfl
      simp [(hj he).2.2 ht] at hs
  newcomer hs hf := by cases hs.symm.trans hf
  work hv _ := .inl hv
  live := rfl
  closing := .inl rfl

/-- One slot is polled, and nobody else is concerned. -/
theorem Passes.of_swaps {a : Agenda} (hw : s.work = []) (hp : s.ready.pick? j = some a)
    (he : s.entries[j]? = some e) (hue : u.entries = s.entries) (hur : u.ready = a)
    (huw : u.work = s.work) (hul : u.live = s.live) (huc : u.closing? = s.closing?)
    (hq : ∀ {i : Nat}, i ≠ j → s.InQueue i → u.InQueue i) (hsw : Swaps j f new u t)
    (hpass : e.station.Passage s t j new f.station) (hn : ∀ v ∈ new, v.vacates? = some j) :
    Passes s t := by
  have hte : t.entries = s.entries.set j f := by rw [hsw.entries, hue]
  have hclosing : t.closing? = s.closing? := by rw [← huc, closing?, hsw.permits, closing?]
  refine .of_change he ?_ hpass hn (fun hij => by rw [hte, List.getElem?_set_ne (Ne.symm hij)])
    (fun {i} hij => ⟨fun hv => by simp [hw] at hv, fun hi => ?_, fun hi => ?_, fun hs => ?_⟩)
    (.refl t) hsw.pushes.subset (fun hv hi => huw ▸ hsw.pushes.mem hv hi) (hsw.live.trans hul)
    (.inl hclosing)
  · rw [hte, getElem?_set_of_some he]
  · rw [hsw.ready, hur]
    exact (Agenda.mem_tasks_of_pick? hp).2 hi hij
  · obtain ⟨p, hper, hm⟩ := hq hij hi
    exact ⟨p, hsw.permits.trans hper, hm⟩
  · rwa [isShut, ← closing?, hclosing]

/-- A flag that is set hands nobody a permit. -/
theorem Hands.trip (h : s.Hands t) (hj : t.entries[j]? = s.entries[j]?) :
    (s.trip j).Hands (t.trip j) := by
  unfold Machine.trip
  rw [hj]
  split
  · exact h
  rename_i e he
  have hl := (List.getElem?_eq_some_iff.mp he).1
  refine ⟨by simp [put, h.length], fun {i a} ha => ?_, h.ready, fun {i} hi => ?_, h.shut, h.work⟩
  · by_cases hij : j = i
    · subst hij
      simp only [put, List.getElem?_set_self hl] at ha
      exact .inl (by simpa [put, List.getElem?_set_self (h.length ▸ hl)] using ha)
    · simp only [put, List.getElem?_set_ne hij] at ha ⊢
      exact h.entry ha
  · refine (h.queue hi).imp id fun hg => ?_
    obtain ⟨a, ha, ht⟩ := hg
    by_cases hij : j = i
    · subst hij
      obtain rfl := Option.some.inj ((hj.trans he).symm.trans ha)
      exact ⟨_, List.getElem?_set_self (h.length ▸ hl), ht⟩
    · exact ⟨a, (List.getElem?_set_ne hij).trans ha, ht⟩

theorem closing?_of_isShut (hs : s.isShut = true) (hc : s.closing? ≠ none) :
    s.closing? = some true := by
  obtain ⟨b, hb⟩ := Option.ne_none_iff_exists'.mp hc
  rw [isShut, ← closing?, hb] at hs
  rw [hb, show b = true from hs]

/-- A task that finds the permits closed ends. -/
theorem passes_closeOut {a : Agenda} (hm : Metered bound 0 s) (hw : s.work = [])
    (hp : s.ready.pick? j = some a) (he : s.entries[j]? = some e)
    (ht : e.task.isWaiting = true) (hk : e.kind = .read) (hc : s.closing? = some true) :
    Passes s ({ s with ready := a }.closeOut j) := by
  have hshut : s.isShut = true := by rw [isShut, ← closing?, hc]; rfl
  have hcl : ({ s with ready := a }.closeOut j).closing? = s.closing? := closing?_closeOut ..
  unfold closeOut at hcl ⊢
  simp only [he] at hcl ⊢
  generalize hf : ({ e with task := .ended } : Entry D) = f at hcl ⊢
  generalize hu : put j f { s with ready := a } = u at hcl ⊢
  have hue : u.entries = s.entries.set j f := by rw [← hu]; rfl
  have hup : u.permits = s.permits := by rw [← hu]; rfl
  have hur : u.ready = a := by rw [← hu]; rfl
  have huw : u.work = [] := by rw [← hu]; exact hw
  have hul : u.live = s.live := by rw [← hu]; rfl
  have hended : f.task = .ended := by rw [← hf]
  have hset : u.entries[j]? = some f := by
    rw [hue, getElem?_set_of_some he]
  have hstation : ({ f with request := f.request.trip } : Entry D).station =
      { e.station with task := .ended } := by
    rw [← hf]
    rfl
  have utrip : u.trip j = u.put j { f with request := f.request.trip } := by simp [trip, hset]
  -- The cancellation comes after whoever is handed the permit.
  have last {v : Machine D} (hh : u.Hands v) (hv : v.entries[j]? = some f)
      (hvl : v.live = s.live)
      (hcl : (v.cancelThen j [.endTask j]).closing? = s.closing?) :
      Passes s (v.cancelThen j [.endTask j]) := by
    have htrip : v.trip j = v.put j { f with request := f.request.trip } := by simp [trip, hv]
    have htw : (v.cancelThen j [.endTask j]).work =
        [.settle j (.error .cancelled), .endTask j] := by
      simp [cancelThen, push, hh.work, huw]
    refine .of_change (f := { f with request := f.request.trip }) he ?_
      (hstation ▸ Station.Passage.stop hw ht hk hc) (by simp [Work.vacates?])
      (fun {i} hij => ?_) (fun {i} hij => ?_)
      ((hh.trip (hv.trans hset.symm)).push [.settle j (.error .cancelled), .endTask j])
      (by simp) (fun {w i} hm hi => .inr ?_) ((live_cancelThen ..).trans hvl) (.inl hcl)
    · simp [cancelThen, htrip, push, put, (List.getElem?_eq_some_iff.mp hv).1]
    · simp only [utrip, push, put]
      rw [List.getElem?_set_ne (Ne.symm hij), hue, List.getElem?_set_ne (Ne.symm hij)]
    · refine .of_permits ?_ (fun hm => by simp [hw] at hm) fun hi => ?_
      · simp [utrip, push, put, hup]
      · have hready : i ∈ a.tasks := (Agenda.mem_tasks_of_pick? hp).2 hi hij
        simpa [utrip, push, put, hur] using hready
    · rw [htw] at hm
      refine (List.mem_cons.mp hm).resolve_left ?_
      rintro rfl
      cases hi
  split
  · rename_i hh
    have hone : Metered bound 1 u := by
      refine hm.set he hue hup (by rw [← hf]) (.inr ⟨by simp [hended], hm.not_mem_of_shut hshut⟩) ?_
      rw [charge_of_task (by simp [hended]) (by simp [hended])]
      simp [Entry.station, Station.charge, hk, hh]
    refine last (hands_putPermit hone) ?_ ((live_putPermit u).trans hul) ?_
    · obtain hkept | ⟨_, hq, _⟩ := entry_putPermit hset
      · exact hkept
      · cases hended.symm.trans hq
    · simpa [hh] using hcl
  · rename_i hh
    exact last (.refl u) hset hul (by simpa [hh] using hcl)

/-- A waiting task holds its job. -/
theorem held_of_isWaiting (h : e.station.Phase s i) (ht : e.task.isWaiting = true) :
    (e.task.isServed = true → e.kind = .read ∧ s.closing? ≠ none) ∧
      ∃ job, e.callback = .held job := by
  cases h with
  | waiting _ _ _ hk hc => exact ⟨hk, hc⟩
  | refused _ _ hn | queued _ _ hn | skipped _ _ hn | working _ _ hn | ended hn =>
      rw [show e.task = _ from hn] at ht
      cases ht

/-- The poll of a task lets every slot make a passage. -/
theorem passes_poll {a : Agenda} (hm : Metered bound 0 s) (hw : s.work = [])
    (hph : ∀ {e : Entry D}, s.entries[j]? = some e → e.station.Phase s j)
    (hp : s.ready.pick? j = some a) : Passes s (Machine.poll j { s with ready := a }) := by
  cases he : s.entries[j]? with
  | none =>
      simp only [Machine.poll, he]
      exact .of_pick hw hp fun ha => by cases he.symm.trans ha
  | some e =>
  have hvisit := visited (s := { s with ready := a }) he
  generalize Machine.poll j { s with ready := a } = t at hvisit ⊢
  -- A task that has its permit, or needs none, starts its job.
  have start {p : Option Permits} (ht : e.task = .fresh ∨ e.task = .handed)
      (hcl : s.closing? = p.map (·.closed))
      (hq : ∀ {i : Nat}, s.InQueue i → Machine.InQueue { s with permits := p } i)
      (hopen : e.kind = .read → s.closing? ≠ some true) :
      Passes s ({ s with ready := a, permits := p }.startJob j) := by
    have hwait : e.task.isWaiting = true := by obtain ht | ht := ht <;> rw [ht] <;> rfl
    obtain ⟨_, job, hb⟩ := held_of_isWaiting (hph he) hwait
    obtain ⟨c, new, hsw, hc, _⟩ :=
      swaps_startJob (s := { s with ready := a, permits := p }) he hb
    refine .of_swaps (u := { s with ready := a, permits := p }) hw hp he rfl rfl rfl rfl hcl.symm
      (fun _ hi => hq hi) hsw ?_ ?_
    · obtain ⟨hc, rfl⟩ | ⟨rfl, rfl⟩ := hc
      · exact .start hw ht hopen hc
      · exact .finish hw ht hopen
    · obtain ⟨_, rfl⟩ | ⟨_, rfl⟩ := hc <;> simp [Work.vacates?]
  cases hvisit with
  | idle ht =>
      refine .of_pick hw hp fun ha => ?_
      obtain rfl := Option.some.inj (he.symm.trans ha)
      obtain ht | ht | ⟨ht, hs⟩ := ht
      · simp [ht]
      · simp [ht]
      · exact ⟨by simp [ht], by simp [ht], fun _ => hs⟩
  | closed ht hs =>
      obtain ⟨ht, hk, hc⟩ | ht := ht
      · have hc : s.closing? ≠ none := by simpa [closing?] using hc
        exact passes_closeOut hm hw hp he (by rw [ht]; rfl) hk (closing?_of_isShut hs hc)
      · have hwait : e.task.isWaiting = true := by
          cases hk : e.task <;> simp_all [Task.isServed, Task.isWaiting]
        obtain ⟨hk, hc⟩ := (held_of_isWaiting (hph he) hwait).1 ht
        exact passes_closeOut hm hw hp he hwait hk (closing?_of_isShut hs hc)
  | @enqueue p ht hk hper hc ha =>
      have hper : s.permits = some p := hper
      have hin {i : Nat} (hi : i ∈ p.queue ∨ i = j) :
          Machine.InQueue { s with permits := some { p with queue := p.queue ++ [j] } } i :=
        ⟨_, rfl, by simpa using hi⟩
      refine .of_swaps (u := { s with
          ready := a, permits := some { p with queue := p.queue ++ [j] } }) hw hp he rfl rfl rfl rfl
        (by simp [closing?, hper]) (fun {i} _ hi => ?_) ⟨rfl, rfl, rfl, rfl, .nothing rfl⟩
        (.enqueue hw ht hk (by simp [closing?, put]) (.inl (hin (.inr rfl))))
        (List.forall_mem_nil _)
      obtain ⟨q, hq, hi⟩ := hi
      obtain rfl := Option.some.inj (hper.symm.trans hq)
      exact hin (.inl hi)
  | @take p n ht hk hper hc ha =>
      have hper : s.permits = some p := hper
      refine start (.inl ht) (by simp [closing?, hper]) (fun hi => ?_)
        fun _ => by simp [closing?, hper, hc]
      obtain ⟨q, hq, hi⟩ := hi
      obtain rfl := Option.some.inj (hper.symm.trans hq)
      exact ⟨_, rfl, hi⟩
  | start ht =>
      refine start (ht.imp And.left And.left) rfl id fun hk => ?_
      obtain ⟨_, hn⟩ | ⟨_, hs⟩ := ht
      · simp [closing?, show s.permits = none from hn hk]
      · intro hc
        have hs : s.isShut = false := hs
        rw [isShut, ← closing?, hc] at hs
        cases hs
  | go ht =>
      obtain hidle | ⟨hc, _, hsw, _⟩ := swaps_continueJob (s := { s with ready := a }) he
      · rw [hidle]
        refine .of_pick hw hp fun ha => ?_
        obtain rfl := Option.some.inj (he.symm.trans ha)
        simp [ht]
      · exact .of_swaps (u := { s with ready := a }) hw hp he rfl rfl rfl rfl rfl (fun _ => id) hsw
          (.hear hw ht hc) (by simp [Work.vacates?])

theorem Passes.refl (s : Machine D) : Passes s s where
  entry he := by
    have hk (i : Nat) (task : Task) : Minds i task s s :=
      ⟨fun hv _ => hv, fun _ => id, fun _ => id⟩
    exact ⟨_, [], he, .stay (hk _ _), List.nil_subset _, fun v hv _ => .inl hv⟩
  newcomer hs hf := by cases hs.symm.trans hf
  work hv _ := .inl hv
  live := rfl
  closing := .inl rfl

/-- A callback begins, or goes on. -/
theorem passes_advance (hw : s.work = []) : Passes s (s.advance j) := by
  unfold advance
  split
  · exact .refl s
  rename_i e he
  -- The rest of the callback's code is left to be performed.
  have go {t : Machine D} (hb : e.callback.isUnderway = true)
      (ht : t.entries = s.entries.set j { e with callback := .running })
      (htp : t.permits = s.permits) (htr : t.ready = s.ready.pause) (hl : t.live = s.live)
      (htw : ∀ v ∈ t.work, v.vacates? = none) : Passes s t := by
    have hk {i : Nat} : Keeps i s t := by
      refine .of_permits htp (fun hv => by simp [hw] at hv) fun hi => ?_
      rw [htr]
      exact hi
    refine .of_change (f := { e with callback := .running }) he ?_ (.resume hw hb hk.minds)
      (List.forall_mem_nil _)
      (fun hij => by rw [ht, List.getElem?_set_ne (Ne.symm hij)]) (fun _ => hk) (.refl t)
      (List.nil_subset _) (fun hv hi => by simp [htw _ hv] at hi) hl
      (.inl (by rw [closing?, htp, closing?]))
    rw [ht, getElem?_set_of_some he]
  split
  · rename_i body hb
    refine go (by rw [hb]; rfl) rfl rfl rfl rfl fun v hv => ?_
    simp only [push, put, emit, pause, hw, List.append_nil, List.mem_append, List.mem_map] at hv
    obtain ⟨a, _, rfl⟩ | hv := hv
    · rfl
    · split at hv
      · simp only [List.mem_append, List.mem_map, List.mem_singleton] at hv
        obtain ⟨a, _, rfl⟩ | rfl := hv <;> rfl
      all_goals exact List.mem_singleton.mp hv ▸ rfl
  · rename_i body hb
    refine go (by rw [hb]; rfl) rfl rfl rfl rfl fun v hv => ?_
    simp only [push, put, emit, pause, hw, List.append_nil, List.mem_append, List.mem_map,
      List.mem_singleton] at hv
    obtain ⟨a, _, rfl⟩ | rfl := hv <;> rfl
  · exact .refl s

/-- Whoever waits in line for a permit is told when the permits are closed. -/
theorem passes_closePermits (he : t.entries = s.entries) (hl : t.live = s.live)
    (hp : t.permits = s.closePermits.permits) (hr : t.ready = s.closePermits.ready)
    (hw : s.work = []) (htw : ∀ v ∈ t.work, v.vacates? = none) : Passes s t where
  entry {i e} ha := by
    refine ⟨e, [], he ▸ ha, .stay ⟨fun hv => by simp [hw] at hv, fun _ hi => ?_, fun _ hi => ?_⟩,
      List.nil_subset _, fun v hv hi => by simp [htw v hv] at hi⟩
    · rw [hr]
      unfold closePermits
      split
      · exact hi
      · exact Agenda.mem_tasks_addAll.mpr (.inl hi)
    · unfold InLine InQueue isShut at hi ⊢
      rw [hp, hr]
      unfold closePermits
      split
      · exact hi
      rename_i p hper
      refine .inr ⟨rfl, Agenda.mem_tasks_addAll.mpr ?_⟩
      obtain ⟨q, hq, hi⟩ | ⟨_, hi⟩ := hi
      · obtain rfl := Option.some.inj (hper.symm.trans hq)
        exact .inr hi
      · exact .inl hi
  newcomer hs hf := by
    rw [he] at hf
    cases hs.symm.trans hf
  work hv hi := by simp [htw _ hv] at hi
  live := hl
  closing := by
    rw [closing?, hp, closing?]
    unfold closePermits
    split
    · exact .inl rfl
    · exact .inr rfl

/-- What comes to a manager's machine lets every slot make a passage, unless it takes the runtime
away. -/
theorem begin_passes (hm : Metered bound 0 s) (hph : ∀ {i : Nat} {e : Entry D},
      s.entries[i]? = some e → e.station.Phase s i) (hw : s.work = []) (m : Move D)
    (hl : ∀ l, m ≠ .lose l) : Passes s (m.begin s) := by
  cases hb : m.isBusy with
  | false =>
      have hidle : (Act.move m).isBusy = false := hb
      exact .steady (Act.steady (a := .move m) hidle) (live_begin hb s) (begin_pushes m hb s)
        (List.Subset.refl _) (fun hv _ => hv) fun hs hf => phase_of_idle hidle hs hf
  | true =>
  cases m with
  | shutdown =>
      have hframe : ({ s with
          admission := (s.admission.close s.vacated).2 }.closePermits).permits =
            s.closePermits.permits ∧ ({ s with
          admission := (s.admission.close s.vacated).2 }.closePermits).ready =
            s.closePermits.ready := by
        unfold closePermits
        dsimp only
        split <;> exact ⟨rfl, rfl⟩
      refine passes_closePermits (entries_closeDown s) (live_closePermits _) hframe.1 hframe.2 hw
        fun v hv => ?_
      simp only [Move.begin, work_closeDown, hw, List.append_nil, List.mem_map] at hv
      obtain ⟨i, _, rfl⟩ := hv
      rfl
  | poll i =>
      simp only [Move.begin]
      split
      · exact .refl s
      · exact passes_poll hm hw hph ‹_›
  | advance i => exact passes_advance hw
  | lose l => exact absurd rfl (hl l)
  | _ => cases hb

end Machine

end RequestScheduler
