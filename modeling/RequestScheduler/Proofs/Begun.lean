import RequestScheduler.Proofs.Course

/-!
# The beginning of a job

A job is seen to begin once, at the step at which its callback begins and at no other
(`Machine.Told`). A step lets one job begin at most (`Machine.Tells`), and work lets none begin:
what is registered on requests and slots tells of releases, reactions, settlements and vacancies
only.
-/

namespace RequestScheduler

variable {D : Type}

/-- What waits for a slot or for its request tells of no beginning. -/
theorem Entry.Edit.honest {a : Machine.Act D} {n : Int64} {p : Option Permits} {i : Nat}
    {e f : Entry D} (h : e.Edit a n p i f) (he : e.Honest) : f.Honest := by
  intro k hk
  cases h with
  | publish => exact he k (hk.imp_left (by simp))
  | register =>
      obtain hk | hk := hk
      · obtain hk | rfl := Cell.mem_continuations_register hk
        · exact he k (.inl hk)
        · rfl
      · exact he k (.inr hk)
  | enrol =>
      obtain hk | hk := hk
      · exact he k (.inl hk)
      · obtain hk | rfl := Cell.mem_continuations_register hk
        · exact he k (.inr hk)
        · rfl
  | openVacancy | vacate => exact he k (hk.imp_right (by simp))
  | await => exact he k (hk.imp_left (by simp [Request.await]))
  | take => exact he k (hk.imp_left (by simp [Request.take]))
  | _ => exact he k hk

namespace Machine

theorem honest_newcomer (s : Machine D) (kind : Kind) (body : Body D) :
    (s.newcomer kind body).Honest := by
  intro k hk
  unfold newcomer at hk
  split at hk
  · simp [Entry.refused, Cell.continuations, Cell.empty] at hk
  · simp [Entry.queued, Cell.continuations, Cell.empty] at hk

variable {s t u : Machine D} {i j : Nat} {e f : Entry D} {w v : Work D} {bound : Option Nat}
  {rest new : List (Work D)}

/-- What an act registers tells of no beginning. -/
theorem Edits.honest {a : Act D} (h : Edits a s (a.apply s)) (hs : s.Honest) :
    (a.apply s).Honest := by
  intro f hf
  obtain ⟨i, hf⟩ := List.getElem?_of_mem hf
  cases he : s.entries[i]? with
  | some e =>
      obtain ⟨g, hg, heg⟩ := h.entry he
      obtain rfl := Option.some.inj (hf.symm.trans hg)
      exact heg.honest (hs e (List.mem_of_getElem? he))
  | none =>
      obtain ⟨kind, body, _, _, rfl⟩ := h.exists_submits he hf
      exact honest_newcomer s kind body

theorem begun_of_events (h : t.events = s.events) : t.begun = s.begun := by
  rw [begun, h, begun]

theorem begun_emit (e : Event D) (s : Machine D) :
    (s.emit e).begun = e.begun?.toList ++ s.begun := by
  unfold begun emit
  cases h : e.begun? <;> simp [h]

theorem events_cancelThen (i : Nat) (after : List (Work D)) (s : Machine D) :
    (s.cancelThen i after).events = s.events := by
  unfold cancelThen trip
  split <;> rfl

theorem events_putPermit (s : Machine D) : s.putPermit.events = s.events := by
  unfold putPermit hand
  repeat' split
  all_goals rfl

/-- What is seen to begin with a work item is what it tells of. -/
theorem begun_exec (w : Work D) (s : Machine D) :
    (exec w s).begun = w.begun?.toList ++ s.begun := by
  have none {t : Machine D} (h : t.events = s.events) : t.begun = s.begun := begun_of_events h
  cases w with
  | perform c =>
      cases c with
      | set | add | mul | cancelAll => rfl
      | log | status | snapshot => exact begun_emit _ _
      | submit =>
          refine none ?_
          simp only [exec, perform, submit]
          repeat' split
          all_goals rfl
      | cancel =>
          simp only [exec, perform]
          split
          · exact begun_emit _ s
          · exact none (events_cancelThen ..)
      | onSettled =>
          simp only [exec, perform, onSettled]
          repeat' split
          all_goals first | exact begun_emit _ s | rfl
  | emit e => exact begun_emit e s
  | run k =>
      cases k with
      | announce e => exact begun_emit e s
      | release | react => rfl
  | settle i o =>
      simp only [exec, settle]
      split
      · rfl
      split
      · rfl
      · simp [begun, Work.begun?, Function.comp_def, Event.begun?]
  | cancelSlot => exact none (events_cancelThen ..)
  | supersede =>
      simp only [exec, supersede]
      split
      · exact none (events_cancelThen ..)
      · rfl
  | cancelEach ids =>
      cases ids with
      | nil => rfl
      | cons => exact none (events_cancelThen ..)
  | reportTally => exact begun_emit _ s
  | endTask =>
      simp only [exec, endTask]
      split
      · rfl
      split
      · exact none (events_putPermit _)
      · exact none (events_putPermit _)
      · rfl
      · rfl
  | finish =>
      simp only [exec, finish]
      split
      · rfl
      split
      · exact begun_emit _ s
      · exact begun_emit _ s
  | skip | openVacancy | vacate | dispatch | await | release | handOver | park =>
      simp only [exec, skip, openVacancy, vacate, dispatch, await, release, handOver, park]
      repeat' split
      all_goals rfl
  | _ => rfl

/-- Tasks go on, and flags are set, and nothing else becomes of requests. -/
structure Resembles (s t : Machine D) : Prop where
  entry : ∀ {i : Nat} {f : Entry D}, t.entries[i]? = some f → ∃ e, s.entries[i]? = some e ∧
    f.request.cell = e.request.cell ∧ f.vacancy = e.vacancy ∧ f.callback = e.callback
  length : t.entries.length = s.entries.length
  events : t.events = s.events

theorem Resembles.same (h : t.entries = s.entries) (he : t.events = s.events) : Resembles s t :=
  ⟨fun hf => ⟨_, h ▸ hf, rfl, rfl, rfl⟩, by rw [h], he⟩

theorem Resembles.trans (h₁ : Resembles s t) (h₂ : Resembles t u) : Resembles s u where
  entry hf := by
    obtain ⟨e, he, hc, hv, hb⟩ := h₂.entry hf
    obtain ⟨a, ha, hca, hva, hba⟩ := h₁.entry he
    exact ⟨a, ha, hc.trans hca, hv.trans hva, hb.trans hba⟩
  length := h₂.length.trans h₁.length
  events := h₂.events.trans h₁.events

theorem Resembles.set (he : s.entries[i]? = some e) (ht : t.entries = s.entries.set i f)
    (hc : f.request.cell = e.request.cell) (hv : f.vacancy = e.vacancy)
    (hb : f.callback = e.callback) (hev : t.events = s.events) : Resembles s t where
  entry {j a} ha := by
    obtain ⟨rfl, rfl⟩ | ⟨_, ha⟩ := getElem?_set_cases (ht ▸ ha)
    · exact ⟨e, he, hc, hv, hb⟩
    · exact ⟨a, ha, rfl, rfl, rfl⟩
  length := by simp [ht]
  events := hev

theorem resembles_trip (i : Nat) (s : Machine D) : Resembles s (s.trip i) := by
  unfold trip
  split
  · exact .same rfl rfl
  · rename_i e he
    exact .set (f := { e with request := e.request.trip }) he rfl rfl rfl rfl rfl

theorem resembles_putPermit (s : Machine D) : Resembles s s.putPermit := by
  unfold putPermit hand
  split
  · exact .same rfl rfl
  split
  · exact .same rfl rfl
  dsimp only
  split
  · exact .same rfl rfl
  rename_i e he
  split
  · exact .set (f := { e with task := .handed }) he rfl rfl rfl rfl rfl
  · exact .same rfl rfl

theorem resembles_closeOut (i : Nat) (s : Machine D) : Resembles s (s.closeOut i) := by
  unfold closeOut
  split
  · exact .same rfl rfl
  rename_i e he
  have hput : Resembles s (s.put i { e with task := .ended }) := .set he rfl rfl rfl rfl rfl
  have last {u : Machine D} (h : Resembles s u) : Resembles s (u.cancelThen i [.endTask i]) :=
    h.trans ((resembles_trip i u).trans (.same rfl rfl))
  dsimp only
  split
  · exact last (hput.trans (resembles_putPermit _))
  · exact last hput

theorem Resembles.honest (h : Resembles s t) (hs : s.Honest) : t.Honest := by
  intro f hf k hk
  obtain ⟨i, hf⟩ := List.getElem?_of_mem hf
  obtain ⟨e, he, hc, hv, _⟩ := h.entry hf
  rw [hc, hv] at hk
  exact hs e (List.mem_of_getElem? he) k hk

theorem hasBegun_eq (he : s.entries[i]? = some e) : s.hasBegun i = e.callback.hasBegun := by
  simp only [hasBegun, he]

theorem hasBegun_of_none (hn : s.entries[i]? = none) : s.hasBegun i = false := by
  simp only [hasBegun, hn]

/-- Job `x` is seen to begin, if there is one, and no other. -/
structure Tells (x : Option Nat) (s t : Machine D) : Prop where
  begun : t.begun = x.toList ++ s.begun
  hasBegun : ∀ i, t.hasBegun i = (s.hasBegun i || decide (x = some i))
  first : ∀ i, x = some i → s.hasBegun i = false
  honest : s.Honest → t.Honest

theorem Resembles.tells (h : Resembles s t) : Tells none s t where
  begun := begun_of_events h.events
  hasBegun i := by
    cases hf : t.entries[i]? with
    | some f =>
        obtain ⟨e, he, _, _, hb⟩ := h.entry hf
        simp [hasBegun_eq hf, hasBegun_eq he, hb]
    | none =>
        have hs : s.entries[i]? = none := by
          rw [List.getElem?_eq_none_iff, h.length] at hf
          exact List.getElem?_eq_none_iff.mpr hf
        simp [hasBegun_of_none hf, hasBegun_of_none hs]
  first i hi := by cases hi
  honest := h.honest

/-- A callback goes on. -/
theorem Tells.set {x : Option Nat} (he : s.entries[j]? = some e)
    (ht : t.entries = s.entries.set j f) (hr : f.request = e.request) (hv : f.vacancy = e.vacancy)
    (hb : t.begun = x.toList ++ s.begun)
    (hx : x = none ∧ f.callback.hasBegun = e.callback.hasBegun ∨
      x = some j ∧ e.callback.hasBegun = false ∧ f.callback.hasBegun = true) : Tells x s t where
  begun := hb
  hasBegun i := by
    by_cases hij : i = j
    · subst hij
      have hf : t.entries[i]? = some f := by
        rw [ht, getElem?_set_of_some he]
      obtain ⟨rfl, hsame⟩ | ⟨rfl, _, hnew⟩ := hx
      · simp [hasBegun_eq hf, hasBegun_eq he, hsame]
      · simp [hasBegun_eq hf, hnew]
    · have hsame : t.hasBegun i = s.hasBegun i := by
        simp only [Machine.hasBegun, ht, List.getElem?_set_ne (Ne.symm hij)]
      have hne : x ≠ some i := by
        obtain ⟨rfl, _⟩ | ⟨rfl, _⟩ := hx
        · simp
        · simpa using Ne.symm hij
      simp [hsame, hne]
  first i hi := by
    obtain ⟨rfl, _⟩ | ⟨rfl, hold, _⟩ := hx
    · cases hi
    · obtain rfl := Option.some.inj hi
      rw [hasBegun_eq he, hold]
  honest hs a ha k hk := by
    obtain ⟨i, ha⟩ := List.getElem?_of_mem ha
    obtain ⟨rfl, rfl⟩ | ⟨_, ha⟩ := getElem?_set_cases (ht ▸ ha)
    · exact hs e (List.mem_of_getElem? he) k (by rwa [hr, hv] at hk)
    · exact hs a (List.mem_of_getElem? ha) k hk

/-- The poll of a task: its job is seen to begin when it is started, or later. -/
theorem tells_poll (hj : ∀ {e : Entry D}, s.entries[j]? = some e →
    e.task.isWaiting = true → ∃ job, e.callback = .held job) : ∃ x, Tells x s (s.poll j) := by
  cases he : s.entries[j]? with
  | none =>
      simp only [Machine.poll, he]
      exact ⟨_, (Resembles.same rfl rfl).tells⟩
  | some e =>
  have hvisit := visited he
  generalize s.poll j = t at hvisit ⊢
  have start {p : Option Permits} (ht : e.task.isWaiting = true) :
      ∃ x, Tells x s ({ s with permits := p }.startJob j) := by
    obtain ⟨job, hb⟩ := hj he ht
    obtain ⟨c, new, hsw, _, hbegun⟩ := swaps_startJob (s := { s with permits := p }) he hb
    cases hc : c.hasBegun with
    | true =>
        rw [hc] at hbegun
        exact ⟨some j, .set he hsw.entries rfl rfl hbegun (.inr ⟨rfl, by rw [hb]; rfl, hc⟩)⟩
    | false =>
        rw [hc] at hbegun
        exact ⟨none, .set he hsw.entries rfl rfl hbegun (.inl ⟨rfl, by rw [hb, hc]; rfl⟩)⟩
  cases hvisit with
  | idle => exact ⟨_, (Resembles.same rfl rfl).tells⟩
  | closed => exact ⟨_, (resembles_closeOut j s).tells⟩
  | enqueue =>
      refine ⟨none, Resembles.tells ?_⟩
      exact .set (f := { e with task := .queueing }) he rfl rfl rfl rfl rfl
  | take ht => exact start (by rw [ht]; rfl)
  | start ht =>
      refine start ?_
      obtain ⟨ht, _⟩ | ⟨ht, _⟩ := ht <;> rw [ht] <;> rfl
  | go =>
      obtain hidle | ⟨_, hc, hsw, hbegun⟩ := swaps_continueJob he
      · rw [hidle]
        exact ⟨_, (Resembles.same rfl rfl).tells⟩
      · exact ⟨none, .set he hsw.entries rfl rfl hbegun (.inl ⟨rfl, hc.symm⟩)⟩

theorem tells_advance (j : Nat) (s : Machine D) : ∃ x, Tells x s (s.advance j) := by
  unfold advance
  split
  · exact ⟨_, (Resembles.same rfl rfl).tells⟩
  rename_i e he
  split
  · rename_i hb
    exact ⟨some j, .set he rfl rfl rfl (begun_emit _ s) (.inr ⟨rfl, by rw [hb]; rfl, rfl⟩)⟩
  · rename_i hb
    exact ⟨none, .set he rfl rfl rfl (begun_emit _ s) (.inl ⟨rfl, by rw [hb]; rfl⟩)⟩
  · exact ⟨_, (Resembles.same rfl rfl).tells⟩

/-- Every job that has begun was seen to begin once, and no other was. -/
structure Told (s : Machine D) : Prop where
  honest : s.Honest
  silent : ∀ w ∈ s.work, w.begun? = none
  begun : ∀ i, s.begun.count i = if s.hasBegun i then 1 else 0

theorem Told.tells {x : Option Nat} (h : Told s) (ht : Tells x s t)
    (hw : ∀ w ∈ t.work, w.begun? = none) : Told t where
  honest := ht.honest h.honest
  silent := hw
  begun i := by
    rw [ht.begun, List.count_append, h.begun, ht.hasBegun]
    cases x with
    | none => simp
    | some j =>
        by_cases hij : j = i
        · subst hij
          simp [ht.first j rfl]
        · simp [hij]

/-- What vacates slots, and what tells of no beginning, is left to be done. -/
theorem Told.silent_of_clears (h : Told s) (hc : Clears s t) : ∀ v ∈ t.work, v.begun? = none := by
  obtain ⟨new, hnew, hp⟩ := hc
  obtain ⟨l, hl, _, hmem⟩ := hp.work
  intro v hv
  rw [hl] at hv
  obtain hv | hv := List.mem_append.mp hv
  · obtain hv | hv := hmem v hv
    · have hsome := hnew v hv
      cases v with
      | emit | run => cases hsome
      | _ => rfl
    · exact hv.2 h.honest
  · exact h.silent v hv

/-- Work tells of no beginning that it was not to tell of. -/
theorem Told.exec (h : Told s) (hc : Charted bound s) (hw : s.work = w :: rest) :
    Told (exec w { s with work := rest }) := by
  have hnone : w.begun? = none := h.silent w (hw ▸ List.mem_cons_self)
  have htells : Tells none s (Machine.exec w { s with work := rest }) := by
    have hhonest : s.Honest → (Machine.exec w { s with work := rest }).Honest := by
      rw [← Act.apply_item hw]
      exact (Act.edits_item w s).honest
    refine ⟨by rw [begun_exec, hnone]; rfl, fun i => ?_, (by simp), hhonest⟩
    have hpass := exec_passes hc.metered hw
    cases he : s.entries[i]? with
    | some e =>
        obtain ⟨f, new, hf, hp, _⟩ := hpass.entry he
        have hsame := hp.hasBegun (hc.slot he) (by rw [hw]; rfl)
        rw [hasBegun_eq he, hasBegun_eq hf, decide_eq_false (by simp), Bool.or_false]
        exact hsame
    | none =>
        cases hf : (Machine.exec w { s with work := rest }).entries[i]? with
        | none => simp [hasBegun_of_none he, hasBegun_of_none hf]
        | some f =>
            obtain ⟨hphase, ht, _⟩ := hpass.newcomer he hf
            have hidle : f.callback.hasBegun = false := by
              obtain hb | ⟨job, hb⟩ := hphase.of_unspawned ht
              · rw [show f.callback = _ from hb]
                rfl
              · rw [show f.callback = _ from hb]
                rfl
            simp [hasBegun_of_none he, hasBegun_eq hf, hidle]
  have hrest : Told { s with work := rest } :=
    ⟨h.honest, fun v hv => h.silent v (hw ▸ List.mem_cons_of_mem _ hv), h.begun⟩
  exact h.tells htells (hrest.silent_of_clears (exec_clears w _))

/-- Where all slots stay where they are, no job begins. -/
theorem Lingers.tells (h : Lingers s t) (he : t.events = s.events) (hh : s.Honest → t.Honest) :
    Tells none s t where
  begun := begun_of_events he
  honest := hh
  hasBegun i := by
    cases hf : t.entries[i]? with
    | some f =>
        obtain ⟨e, hs, hst⟩ | ⟨hs, ht, _⟩ := h.steady.cases hf
        · have hsame : f.callback = e.callback := congrArg Station.callback hst
          simp [hasBegun_eq hf, hasBegun_eq hs, hsame]
        · have hidle : f.callback.hasBegun = false := by
            obtain hb | ⟨job, hb⟩ := (h.newcomer hs hf).of_unspawned ht <;>
              rw [show f.callback = _ from hb] <;> rfl
          simp [hasBegun_of_none hs, hasBegun_eq hf, hidle]
    | none =>
        cases hs : s.entries[i]? with
        | none => simp [hasBegun_of_none hf, hasBegun_of_none hs]
        | some e =>
            obtain ⟨f, ht, _⟩ := h.steady.entry hs
            cases hf.symm.trans ht
  first := (by simp)

theorem events_begin {m : Move D} (hm : m.isBusy = false) (s : Machine D) :
    (m.begin s).events = s.events := by
  cases m with
  | shutdown | poll | advance | lose => cases hm
  | cancel =>
      simp only [Move.begin]
      split
      · exact events_cancelThen ..
      · rfl
  | submit | onSettled | trip | awaitRequest | takeOutcome | dropFuture | release =>
      simp only [Move.begin, submit, onSettled, trip, awaitRequest, takeOutcome, dropFuture, modify,
        releaseJob]
      repeat' split
      all_goals rfl
  | _ => rfl

theorem events_closePermits (s : Machine D) : s.closePermits.events = s.events := by
  unfold closePermits
  split <;> rfl

theorem Told.lingers (h : Told s) (hl : Lingers s t) (he : t.events = s.events)
    (hh : s.Honest → t.Honest) : Told t :=
  h.tells (hl.tells he hh) (h.silent_of_clears hl.pushes.clears)

/-- What comes to a manager's machine tells of the jobs that it lets begin. -/
theorem Told.begin (h : Told s) (hc : Charted bound s) (hw : s.work = []) (m : Move D) :
    Told (m.begin s) := by
  cases hb : m.isBusy with
  | false =>
      exact h.lingers (begin_lingers hb s) (events_begin hb s)
        (Act.edits_of_idle (a := .move m) hb).honest
  | true =>
  cases m with
  | shutdown =>
      have hsame := Resembles.same (entries_closeDown s) (events_closePermits _)
      refine h.tells hsame.tells fun v hv => ?_
      simp only [Move.begin, work_closeDown, hw, List.append_nil, List.mem_map] at hv
      obtain ⟨i, _, rfl⟩ := hv
      rfl
  | poll i =>
      simp only [Move.begin]
      split
      · exact h
      rename_i a _
      have held {i : Nat} {e : Entry D} (he : s.entries[i]? = some e)
          (ht : e.task.isWaiting = true) : ∃ job, e.callback = .held job :=
        (held_of_isWaiting (hc.phase he) ht).2
      have hpicked : Told { s with ready := a } := ⟨h.honest, h.silent, h.begun⟩
      obtain ⟨x, hx⟩ := tells_poll (s := { s with ready := a }) (j := i) held
      exact hpicked.tells hx (hpicked.silent_of_clears (poll_clears held))
  | advance i =>
      obtain ⟨x, hx⟩ := tells_advance i s
      refine h.tells hx fun v hv => ?_
      have hv : v ∈ (s.advance i).work := hv
      obtain hnone | ⟨es, u, ht, _, hu, _⟩ := work_of_advance hw i
      · simp [hnone] at hv
      · rw [ht] at hv
        obtain hv | hv := List.mem_append.mp hv
        · obtain ⟨c, _, rfl⟩ := List.mem_map.mp hv
          rfl
        · exact List.mem_singleton.mp hv ▸ hu
  | lose tasks =>
      simp only [Move.begin]
      split
      · refine h.tells (Resembles.tells (.same rfl rfl)) fun v hv => ?_
        simp only [push, hw, List.append_nil, List.mem_map] at hv
        obtain ⟨i, _, rfl⟩ := hv
        rfl
      · exact h
  | _ => cases hb

end Machine

end RequestScheduler
