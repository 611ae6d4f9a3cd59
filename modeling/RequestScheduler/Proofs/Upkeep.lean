import RequestScheduler.Proofs.Keep

/-!
# Every step keeps the order of work

No step of a thread undoes what others rely on, and what it leaves to be done is in order
(`exec_leads`, `begin_leads`). So work stays in order in every thread of every crew
(`Crew.History.fit`).
-/

namespace RequestScheduler

variable {D : Type}

/-- The request whose slot a work item hands to the runtime. -/
def Work.hands? : Work D → Option Nat
  | .dispatch i => some i
  | _ => none

namespace Entry

variable {e : Entry D}

theorem Preserves.trip (e : Entry D) : e.Preserves { e with request := e.request.trip } :=
  ⟨rfl, .rfl, id, id, id, fun _ => rfl, id, fun h => ⟨h.stage, h.task, rfl⟩⟩

theorem Fit.trip (h : e.Fit) : Fit { e with request := e.request.trip } where
  idle := h.idle
  excused hv := (h.excused hv).imp_right (Preserves.trip e).skipped

theorem Preserves.publish (e : Entry D) (o : Outcome (Value D)) :
    e.Preserves { e with request := e.request.publish o } :=
  ⟨rfl, .rfl, id, id, fun _ => Request.isSettled_publish o _, id, id,
    fun h => ⟨h.stage, h.task, h.tripped⟩⟩

theorem Fit.publish (h : e.Fit) (o : Outcome (Value D)) :
    Fit { e with request := e.request.publish o } :=
  ⟨h.idle, fun _ => .inl (Request.isSettled_publish o _)⟩

/-- A slot leaves the queue. -/
theorem Preserves.leave (h : e.Fit) (hq : e.stage = .queued) {stage : Stage} {task : Task}
    (callback : Callback D) (hs : stage ≠ .queued ∧ stage ≠ .refused) :
    e.Preserves { e with stage, task, callback } where
  kind := rfl
  refused := by simp [hq, hs.2]
  queued hn := absurd hn hs.1
  isVacated := id
  settled := id
  tripped := id
  spawned ht := absurd (h.idle (.inl hq)) ht
  skipped hk := by cases hq.symm.trans hk.stage

/-- A vacancy opens once the request has settled. -/
theorem Preserves.openVacancy (e : Entry D) :
    e.Preserves { e with vacancy := e.vacancy.settle () } :=
  ⟨rfl, .rfl, id, fun _ => Cell.isSettled_settle _ _, id, id, id,
    fun h => ⟨h.stage, h.task, h.tripped⟩⟩

theorem Preserves.vacate (h : e.Fit) (ht : e.task ≠ .unspawned) :
    e.Preserves { e with stage := .vacated, vacancy := e.vacancy.settle () } where
  kind := rfl
  refused := iff_of_false (fun hr => by cases hr) fun hr => ht (h.idle (.inr hr))
  queued hn := by cases hn
  isVacated _ := Cell.isSettled_settle _ _
  settled := id
  tripped := id
  spawned := id
  skipped hk := absurd hk.task ht

/-- What waits for the slot or the request changes neither. -/
theorem Calm.enrol (e : Entry D) (k : Continuation D) :
    e.Calm { e with vacancy := e.vacancy.register k } :=
  ⟨rfl, rfl, Cell.isSettled_register k e.vacancy, rfl, rfl, .rfl⟩

theorem Calm.request (e : Entry D) {r : Request (Value D) Nat (Continuation D)}
    (hs : r.isSettled = e.request.isSettled) (ht : r.tripped = e.request.tripped) :
    e.Calm { e with request := r } :=
  ⟨rfl, rfl, rfl, hs, ht, .rfl⟩

end Entry

namespace Machine

variable {s t u : Machine D} {i : Nat} {e f : Entry D} {w : Work D} {after : List (Work D)}
  {bare hands : Option Nat}

/-- A cancellation sets the flag and settles the request next. -/
theorem leads_cancelThen (hs : s.Fit) (hi : s.At i fun _ => True)
    (ha : ∀ {t : Machine D}, s.Preserves t → t.InOrder [i] after) :
    Leads bare hands s (s.cancelThen i after) := by
  obtain ⟨e, he, _⟩ := hi
  have ht : s.cancelThen i after = { s with
      entries := s.entries.set i { e with request := e.request.trip }
      work := .settle i (.error .cancelled) :: after ++ s.work } := by
    simp [cancelThen, trip, he, push, put]
  rw [ht]
  refine .set hs he rfl (.trip e) (hs.entry he).trip rfl rfl
    ⟨.of_set he rfl trivial, ha (.set he rfl (.trip e))⟩ (fun _ => .inr (.inr ⟨_, _, rfl⟩)) .inl

theorem leads_skip (hs : s.Fit) (hi : ∀ e, s.entries[i]? = some e → e.stage = .queued →
      e.request.isSettled = true ∨ e.request.tripped = true) : Leads bare hands s (s.skip i) := by
  unfold skip
  split
  · exact .refl hs
  rename_i e he
  split
  · rename_i hq
    have hfit := hs.entry he
    have hk : e.Preserves { e with stage := .vacated, callback := .dropped } :=
      .leave hfit hq _ (by simp)
    refine .set (l := [.openVacancy i]) hs he rfl hk ⟨fun h => ?_, fun hv => ?_⟩ rfl rfl
      ⟨?_, trivial⟩ .inl (fun h => by cases h)
    · simp at h
    · obtain h | h := hfit.excused hv
      · exact .inl h
      · exact .inr (hk.skipped h)
    · refine (hi e he hq).imp (fun hset => .of_set he rfl (.inl hset)) fun ht => ?_
      exact .of_set he rfl ⟨rfl, hfit.idle (.inl hq), ht⟩
  · exact .refl hs

theorem leads_openVacancy (hs : s.Fit) (hr : s.Ready [] (.openVacancy i)) :
    Leads bare hands s (s.openVacancy i []) := by
  unfold openVacancy
  split
  · exact .refl hs
  rename_i e he
  split
  · exact .refl hs
  · have hk : e.Preserves { e with vacancy := e.vacancy.settle () } := .openVacancy e
    have hexcused : e.request.isSettled = true ∨ e.IsSkipped := by
      refine hr.imp (fun h => ?_) fun h => h.of_entry he
      exact (At.of_entry h he).resolve_right List.not_mem_nil
    refine .set hs he rfl hk ⟨(hs.entry he).idle, fun _ => ?_⟩ rfl (by rw [List.append_nil])
      (inOrder_of_isFree (by simp [Work.isFree])) .inl .inl
    exact hexcused.imp_right hk.skipped

theorem leads_vacate (hs : s.Fit) (hr : s.Ready [] (.vacate i)) :
    Leads bare hands s (s.vacate i) := by
  unfold vacate
  split
  · exact .refl hs
  rename_i e he
  have hset : e.request.isSettled = true :=
    (At.of_entry hr.1 he).resolve_right List.not_mem_nil
  have ht : e.task ≠ .unspawned := hr.2.of_entry he
  have hput := getElem?_set_of_some (b := { e with stage := .vacated }) he
  have hidle {v : Cell Unit Empty (Continuation D)} :
      Entry.Fit { e with stage := .vacated, vacancy := v } :=
    ⟨fun h => by simp at h, fun _ => .inl hset⟩
  have hk : e.Preserves { e with stage := .vacated, vacancy := e.vacancy.settle () } :=
    .vacate (hs.entry he) ht
  simp only [openVacancy, put, hput, List.set_set]
  split
  · rename_i hv
    rw [Cell.settle_of_isSettled hv] at hk
    exact .set (l := []) hs he rfl hk hidle rfl rfl trivial .inl (fun h => by cases h)
  · refine .set hs he rfl hk hidle rfl rfl (inOrder_of_isFree fun w hw => ?_) .inl
      (fun h => by cases h)
    simp only [List.mem_append, List.mem_map, List.mem_singleton] at hw
    obtain ⟨k, _, rfl⟩ | rfl := hw <;> rfl

theorem leads_dispatch (hs : s.Fit) : Leads bare (some i) s (s.dispatch i) := by
  unfold dispatch
  split
  · exact .refl hs
  rename_i e he
  split
  · rename_i hq
    have hfit := hs.entry he
    have hk (task : Task) : e.Preserves { e with stage := .dispatched, task } :=
      .leave hfit hq e.callback (by simp)
    have hnew (task : Task) : Entry.Fit { e with stage := .dispatched, task } := by
      refine ⟨fun h => by simp at h, fun hv => ?_⟩
      exact (hfit.excused hv).imp_right (hk task).skipped
    split
    · rename_i ht
      exact leads_skip hs fun a ha _ => .inr (Option.some.inj (he.symm.trans ha) ▸ ht)
    split
    · exact .set (l := []) hs he rfl (hk _) (hnew _) rfl rfl trivial .inl fun _ => .inr rfl
    · exact .set (l := [.endTask i]) hs he rfl (hk _) (hnew _) rfl rfl
        ⟨.of_set he rfl (by simp), trivial⟩ .inl fun _ => .inr rfl
  · exact .refl hs

/-- A task ends that exists: what it leaves settles its request and vacates its slot. -/
theorem leads_endTask (hs : s.Fit) (hr : s.Ready [] (.endTask i)) :
    Leads bare hands s (s.endTask i) := by
  unfold endTask
  split
  · exact .refl hs
  rename_i e he
  have ht : e.task ≠ .unspawned := At.of_entry hr he
  have hcalm : e.Calm { e with task := .ended, callback := e.callback.close } :=
    .proceed _ ht (by simp)
  have hput : s.Calms ({ s with ready := s.ready.remove i }.put i
      { e with task := .ended, callback := e.callback.close }) := .set he rfl hcalm rfl
  have last {u : Machine D} (hu : s.Calms u) (hw : u.work = s.work) :
      Leads bare hands s (u.push [.settle i (.error .cancelled), .vacate i]) := by
    obtain ⟨f, hf, hef⟩ := hu.entry he
    have hc : s.Calms (u.push [.settle i (.error .cancelled), .vacate i]) :=
      hu.trans (.same rfl rfl)
    refine hc.leads (l := [.settle i (.error .cancelled), .vacate i]) hs (by rw [← hw]; rfl)
      ⟨⟨f, hf, trivial⟩, ⟨⟨f, hf, .inr ?_⟩, f, hf, hef.keeps.spawned ht⟩, trivial⟩
    exact List.mem_singleton_self i
  dsimp only
  split
  · exact last (hput.trans (calms_putPermit _)) (work_putPermit _)
  · exact last (hput.trans (calms_putPermit _)) (work_putPermit _)
  · exact last (hput.trans (.same rfl rfl)) rfl
  · exact last hput rfl

theorem leads_submit {kind : Kind} {body : Body D} (hs : s.Fit)
    (ha : ∀ w ∈ after, w.isFree = true) : Leads bare hands s (s.submit kind body after) := by
  unfold submit
  dsimp only
  split
  · refine .append (l := .settle s.entries.length (.error .shutdownRejected) ::
      .handOver s.entries.length :: after) hs rfl (Entry.fit_refused kind) rfl
      (by simp [Entry.refused]) (fun i => .inl) rfl ⟨.of_append rfl trivial, inOrder_of_isFree ?_⟩
    simpa [Work.isFree] using ha
  -- Counting the request does not change what the record lists.
  have listed {i : Nat} (h : s.admission.nextSeq.2.Lists i ∨ i = s.entries.length) :
      s.admission.Lists i ∨ i = s.entries.length := h
  cases kind with
  | read =>
      have hfit := Entry.fit_queued .read s.admission.nextSeq.1 (.callback body)
      dsimp only
      split
      · refine .append (l := _ :: _ :: _ :: after) hs rfl hfit rfl (by simp [Entry.queued])
          (fun i hi => listed (Admission.Lists.of_admitRead hi)) rfl (inOrder_of_isFree ?_)
        simpa [Work.isFree] using ha
      · refine .append (l := _ :: _ :: after) hs rfl hfit rfl (by simp [Entry.queued])
          (fun i hi => listed (Admission.Lists.of_admitRead hi)) rfl (inOrder_of_isFree ?_)
        simpa [Work.isFree] using ha
  | write =>
      refine .append hs rfl (Entry.fit_queued ..) rfl (by simp [Entry.queued])
        (fun i hi => listed (Admission.Lists.of_admitWrite hi)) rfl
        (inOrder_of_isFree fun w hw => ?_)
      simp only [List.mem_append, List.mem_map, List.mem_cons] at hw
      obtain ⟨_, _, rfl⟩ | rfl | rfl | hw := hw
      · rfl
      · rfl
      · rfl
      · exact ha w hw

theorem leads_onSettled {tag : D} {effects : List (Effect D)} (hs : s.Fit)
    (ha : ∀ w ∈ after, w.isFree = true) : Leads bare hands s (s.onSettled i tag effects after) := by
  unfold onSettled
  split
  · exact .push hs rfl rfl rfl ha
  rename_i e he
  split
  · refine .push (l := .run (.react tag effects) :: after) hs rfl rfl rfl ?_
    simpa [Work.isFree] using ha
  · have hcalm : e.Calm { e with request := e.request.register (.react tag effects) } :=
      .request e (by simp [Request.register, Request.isSettled]) rfl
    exact .calm hs he rfl hcalm rfl rfl (inOrder_of_isFree ha)

theorem leads_cancelAll (hs : s.Fit) (ha : ∀ w ∈ after, w.isFree = true) :
    Leads bare hands s (s.cancelAll after) := by
  refine .record (l := .cancelEach _ _ 0 :: after) hs rfl (fun hi => hs.listed hi.of_prune) rfl
    ⟨fun i hi => ?_, inOrder_of_isFree ha⟩
  have hlisted : (s.admission.prune s.vacated).Lists i :=
    (List.mem_append.mp hi).elim (.inr ∘ .inl) .inl
  exact (At.congr rfl).mpr (hs.listed hlisted.of_prune)

/-- What a client's code does. -/
theorem leads_perform (a : Effect D) (hs : s.Fit) : Leads bare hands s (s.perform a) := by
  have same {t : Machine D} (he : t.entries = s.entries) (ha : t.admission = s.admission)
      (hw : t.work = s.work) : Leads bare hands s t := (Calms.same he ha).leads_nothing hs hw
  have one {w : Work D} (hw : w.isFree = true) : ∀ v ∈ [w], v.isFree = true := by simpa using hw
  cases a with
  | set | add | mul | log | status => exact same rfl rfl rfl
  | submit => exact leads_submit hs (one rfl)
  | cancel i =>
      unfold perform
      dsimp only
      split
      · exact same rfl rfl rfl
      · rename_i e he
        exact leads_cancelThen hs ⟨e, (Option.filter_eq_some_iff.mp he).1, trivial⟩
          fun _ => inOrder_of_isFree (one rfl)
  | cancelAll => exact leads_cancelAll hs (one rfl)
  | snapshot => exact .record (l := []) hs rfl (fun hi => hs.listed hi.of_prune) rfl trivial
  | onSettled =>
      unfold perform
      dsimp only
      split
      · exact same rfl rfl rfl
      · exact leads_onSettled hs (one rfl)

/-- A work item keeps what there is, and leaves work in order. -/
theorem exec_leads (hs : s.Fit) (hw : s.Ready [] w) : Leads bare w.hands? s (exec w s) := by
  have quiet {hands : Option Nat} {t : Machine D} (h : s.Calms t) (hw : t.work = s.work) :
      Leads bare hands s t := h.leads_nothing hs hw
  have skip {t : Machine D} {i : Nat} (hi : s.At i fun _ => True) (hk : s.Preserves t) :
      t.Assured [i] i := hi.keep hk fun _ _ => .inr (List.mem_singleton_self i)
  cases w with
  | perform a => exact leads_perform a hs
  | emit | note | reportTally => exact quiet (.same rfl rfl) rfl
  | run k =>
      cases k with
      | announce => exact quiet (.same rfl rfl) rfl
      | release g => exact .push (l := [.release g]) hs rfl rfl rfl (by simp [Work.isFree])
      | react tag effects =>
          exact .push (l := effects.map .perform) hs rfl rfl rfl (by simp [Work.isFree])
  | settle i o =>
      simp only [exec, settle]
      split
      · exact .refl hs
      rename_i e he
      split
      · exact .refl hs
      · exact .set hs he rfl (.publish e o) ((hs.entry he).publish o) rfl rfl
          (inOrder_of_isFree (by simp [Work.isFree])) .inl .inl
  | cancelSlot i => exact leads_cancelThen hs hw fun hk => ⟨skip hw hk, trivial⟩
  | supersede i x =>
      simp only [exec, supersede]
      split
      · rename_i e a he _
        refine leads_cancelThen hs ⟨e, he, trivial⟩ fun hk => ⟨skip ⟨e, he, trivial⟩ hk, ?_⟩
        exact inOrder_of_isFree (by split <;> simp [Work.isFree])
      · exact .refl hs
  | cancelEach ids total count =>
      cases ids with
      | nil => exact quiet (.same rfl rfl) rfl
      | cons i ids =>
          have hi := hw i List.mem_cons_self
          refine leads_cancelThen hs hi fun hk => ⟨skip hi hk, fun j hj => ?_, trivial⟩
          exact (hw j (List.mem_cons_of_mem _ hj)).keep hk fun _ => id
  | skip i =>
      refine leads_skip hs fun e he _ => .inl ?_
      exact (At.of_entry hw he).resolve_right List.not_mem_nil
  | openVacancy i => exact leads_openVacancy hs hw
  | vacate i => exact leads_vacate hs hw
  | dispatch i => exact leads_dispatch hs
  | chain x ds =>
      refine .push (l := ds.map (Work.await s.gates.length) ++ [.release s.gates.length]) hs rfl rfl
        (by simp [exec, chain]) fun w hw => ?_
      simp only [List.mem_append, List.mem_map, List.mem_singleton] at hw
      obtain ⟨d, _, rfl⟩ | rfl := hw <;> rfl
  | await g d =>
      simp only [exec, await]
      split
      · exact .refl hs
      rename_i e he
      split
      · exact .push (l := [.release g]) hs rfl rfl rfl (by simp [Work.isFree])
      · exact quiet (.set he rfl (.enrol e _) rfl) rfl
  | release g =>
      simp only [exec, release]
      split
      · exact .refl hs
      · rename_i gate _
        refine .push (l := if gate.remaining = 1 then [.dispatch gate.slot] else []) hs rfl rfl
          ?_ ?_
        · split <;> rfl
        · split <;> simp [Work.isFree]
  | endTask i => exact leads_endTask hs hw
  | handOver i =>
      simp only [exec, handOver]
      split
      · exact .refl hs
      · rename_i e he
        exact quiet (.set he rfl ⟨rfl, rfl, rfl, rfl, rfl, .rfl⟩ rfl) rfl
  | park i body =>
      simp only [exec, park]
      split
      · exact .refl hs
      · rename_i e he
        exact quiet (.set he rfl ⟨rfl, rfl, rfl, rfl, rfl, .rfl⟩ rfl) rfl
  | finish i r =>
      simp only [exec, finish]
      split
      · exact .refl hs
      rename_i e he
      split
      · exact quiet (.set he rfl ⟨rfl, rfl, rfl, rfl, rfl, .rfl⟩ rfl) rfl
      · exact quiet (.set he rfl ⟨rfl, rfl, rfl, rfl, rfl, .rfl⟩ rfl) rfl

/-! ## Moves -/

/-- A task goes on with its job: what it leaves settles its request before it ends. -/
theorem leads_end {c : Callback D} {task : Task} {l : List (Work D)} (hs : s.Fit)
    (he : s.entries[i]? = some e) (ht : e.task ≠ .unspawned) (htask : task ≠ .unspawned)
    (h : t.entries = s.entries.set i { e with task, callback := c })
    (ha : t.admission = s.admission) (hw : t.work = l ++ .endTask i :: s.work)
    (hi : ∀ w ∈ l, w.isFree = true ∨ w.settles? = some i) : Leads bare hands s t := by
  have hcalm : e.Calm { e with task, callback := c } := .proceed c ht htask
  have hend : t.Ready [] (.endTask i) := .of_set he h htask
  refine .calm (l := l ++ [.endTask i]) hs he h hcalm ha (by simp [hw])
    (inOrder_of_ready fun w hw => ?_)
  obtain hw | hw := List.mem_append.mp hw
  · obtain hw | hw := hi w hw
    · exact ready_of_isFree hw
    · cases w with
      | settle j o =>
          obtain rfl := Option.some.inj hw
          exact .of_set he h trivial
      | _ => cases hw
  · exact List.mem_singleton.mp hw ▸ hend

theorem leads_startJob (hs : s.Fit) (he : s.entries[i]? = some e) (ht : e.task ≠ .unspawned) :
    Leads bare hands s (s.startJob i) := by
  have quiet {t : Machine D} {c : Callback D}
      (h : t.entries = s.entries.set i { e with task := .working, callback := c })
      (ha : t.admission = s.admission) (hw : t.work = s.work) : Leads bare hands s t :=
    (Calms.set he h (.proceed c ht (by simp)) ha).leads_nothing hs hw
  simp only [startJob, he]
  split
  · exact quiet rfl rfl rfl
  · rename_i outcome _
    refine leads_end (l := (outcome.map (Work.settle i)).toList) hs he ht (by simp) rfl rfl
      (by simp [push, put, emit]) fun w hw => ?_
    obtain ⟨o, _, rfl⟩ := Option.map_eq_some_iff.mp (Option.mem_toList.mp hw)
    exact .inr rfl
  · split
    · exact leads_end (l := [_]) hs he ht (by simp) rfl rfl rfl (by simp [Work.settles?])
    · exact quiet rfl rfl rfl
  · exact quiet rfl rfl rfl

theorem leads_closeOut (hs : s.Fit) (he : s.entries[i]? = some e) (ht : e.task ≠ .unspawned) :
    Leads bare hands s (s.closeOut i) := by
  have hcalm : e.Calm { e with task := .ended } := .proceed e.callback ht (by simp)
  have hput : s.Calms (s.put i { e with task := .ended }) := .set he rfl hcalm rfl
  have last {u : Machine D} (hu : s.Calms u) (hw : u.work = s.work) :
      Leads bare hands s (u.cancelThen i [.endTask i]) := by
    obtain ⟨f, hf, hef⟩ := hu.entry he
    refine hu.trans_leads hw (leads_cancelThen (hu.fit hs) ⟨f, hf, trivial⟩ fun hk => ?_)
    obtain ⟨g, hg, hfg⟩ := hk.entry hf
    exact ⟨⟨g, hg, hfg.spawned (hef.keeps.spawned ht)⟩, trivial⟩
  simp only [closeOut, he]
  split
  · exact last (hput.trans (calms_putPermit _)) (work_putPermit _)
  · exact last hput rfl

theorem leads_continueJob (hs : s.Fit) (he : s.entries[i]? = some e) (ht : e.task ≠ .unspawned) :
    Leads bare hands s (s.continueJob i) := by
  simp only [continueJob, he]
  split
  · rename_i o _
    refine leads_end (l := panicNote e.kind o ++ [.settle i o]) hs he ht ht rfl rfl
      (by simp [push, put]) fun w hw => ?_
    obtain hw | hw := List.mem_append.mp hw
    · obtain ⟨a, _, rfl⟩ := List.mem_map.mp hw
      exact .inl rfl
    · exact .inr (List.mem_singleton.mp hw ▸ rfl)
  · split
    · exact leads_end (l := [_]) hs he ht ht rfl rfl rfl (by simp [Work.settles?])
    · exact .refl hs
  · exact .refl hs

/-- The runtime polls a task. -/
theorem leads_poll (hs : s.Fit) : Leads bare hands s (s.poll i) := by
  unfold poll
  split
  · exact .refl hs
  rename_i e he
  have permitted (p : Permits) : s.Calms { s with permits := some p } := .same rfl rfl
  split
  · exact .refl hs
  · exact .refl hs
  · rename_i ht
    have ht : e.task ≠ .unspawned := by simp [ht]
    split
    · split
      · exact leads_closeOut hs he ht
      · rename_i p _
        exact (permitted p).trans_leads rfl (leads_startJob ((permitted p).fit hs) he ht)
      · have hcalm : e.Calm { e with task := .queueing } := .proceed e.callback ht (by simp)
        exact .calm (l := []) hs he rfl hcalm rfl rfl trivial
    · exact leads_startJob hs he ht
  · rename_i ht
    split
    · exact leads_closeOut hs he (by simp [ht])
    · exact .refl hs
  · rename_i ht
    split
    · exact leads_closeOut hs he (by simp [ht])
    · exact leads_startJob hs he (by simp [ht])
  · rename_i ht
    exact leads_continueJob hs he (by simp [ht])

theorem leads_advance (hs : s.Fit) : Leads bare hands s (s.advance i) := by
  unfold advance
  split
  · exact .refl hs
  rename_i e he
  have hcalm : e.Calm { e with callback := .running } := ⟨rfl, rfl, rfl, rfl, rfl, .rfl⟩
  split
  · rename_i body _
    refine .calm hs he rfl hcalm rfl rfl (inOrder_of_isFree fun w hw => ?_)
    obtain hw | hw := List.mem_append.mp hw
    · obtain ⟨a, _, rfl⟩ := List.mem_map.mp hw
      rfl
    · split at hw
      · simp only [List.mem_append, List.mem_map, List.mem_singleton] at hw
        obtain ⟨a, _, rfl⟩ | rfl := hw <;> rfl
      all_goals exact List.mem_singleton.mp hw ▸ rfl
  · refine .calm hs he rfl hcalm rfl rfl (inOrder_of_isFree fun w hw => ?_)
    simp only [List.mem_append, List.mem_map, List.mem_singleton] at hw
    obtain ⟨a, _, rfl⟩ | rfl := hw <;> rfl
  · exact .refl hs

theorem leads_trip (hs : s.Fit) : Leads (some i) hands s (s.trip i) := by
  unfold trip
  split
  · exact .refl hs
  · rename_i e he
    exact .set (l := []) hs he rfl (.trip e) (hs.entry he).trip rfl rfl trivial
      (fun _ => .inr (.inl rfl)) .inl

theorem calms_modify {g : Entry D → Entry D} (hg : ∀ e : Entry D, e.Calm (g e)) :
    s.Calms (s.modify i g) := by
  unfold modify
  split
  · exact .same rfl rfl
  · rename_i e he
    exact .set he rfl (hg e) rfl

theorem calms_releaseJob : s.Calms (s.releaseJob i) := by
  unfold releaseJob
  split
  · exact .same rfl rfl
  rename_i e he
  have hcalm : e.Calm { e with released := true } := ⟨rfl, rfl, rfl, rfl, rfl, .rfl⟩
  dsimp only
  repeat' split
  all_goals exact .set he rfl hcalm rfl

theorem calms_closePermits (s : Machine D) : s.Calms s.closePermits := by
  unfold closePermits
  split <;> exact .same rfl rfl

/-- The record closes, and what it listed is cancelled. -/
theorem leads_closeDown (hs : s.Fit) : Leads bare hands s s.closeDown := by
  have he := entries_closeDown s
  refine .record hs he (fun hi => ?_) (work_closeDown s) (inOrder_of_ready fun w hw => ?_)
  · rw [admission_closeDown] at hi
    exact absurd hi Admission.not_lists_close
  · obtain ⟨i, hi, rfl⟩ := List.mem_map.mp hw
    have hlisted : (s.admission.prune s.vacated).Lists i :=
      (List.mem_append.mp hi).elim (.inr ∘ .inl) .inl
    exact (At.congr he).mpr (hs.listed hlisted.of_prune)

/-- The runtime drops tasks that exist. -/
theorem leads_lose {tasks : List Nat} (hs : s.Fit) (ht : tasks.Perm s.aliveTasks) :
    Leads bare hands s ({ s with live := false, ready := {} }.push (tasks.map .endTask)) := by
  have hcalm : s.Calms ({ s with live := false, ready := {} }.push (tasks.map .endTask)) :=
    .same rfl rfl
  refine hcalm.leads hs rfl (inOrder_of_ready fun w hw => ?_)
  obtain ⟨i, hi, rfl⟩ := List.mem_map.mp hw
  obtain ⟨e, he, halive⟩ := mem_aliveTasks.mp (ht.mem_iff.mp hi)
  exact ⟨e, he, fun hu => by simp [Entry.isAlive, hu] at halive⟩

/-- The request whose flag a move sets and leaves it at that. -/
def Move.bare? : Move D → Option Nat
  | .trip i => some i
  | _ => none

/-- What comes to a manager's machine keeps what there is, and leaves work in order. -/
theorem begin_leads (m : Move D) (hs : s.Fit) : Leads m.bare? none s (m.begin s) := by
  have free : ∀ w ∈ ([] : List (Work D)), w.isFree = true := List.forall_mem_nil _
  have quiet {bare : Option Nat} {t : Machine D} (h : s.Calms t) (hw : t.work = s.work) :
      Leads bare none s t := h.leads_nothing hs hw
  have request (i : Nat) {g : Entry D → Entry D} (hg : ∀ e : Entry D, e.Calm (g e)) :
      Leads none none s (s.modify i g) := by
    refine quiet (calms_modify hg) ?_
    unfold modify
    split <;> rfl
  cases m with
  | submit => exact leads_submit hs free
  | cancel i =>
      simp only [Move.begin]
      split
      · rename_i he
        obtain ⟨e, he⟩ := Option.isSome_iff_exists.mp he
        exact leads_cancelThen hs ⟨e, he, trivial⟩ fun _ => trivial
      · exact .refl hs
  | cancelAll => exact leads_cancelAll hs free
  | snapshot => exact .record (l := []) hs rfl (fun hi => hs.listed hi.of_prune) rfl trivial
  | onSettled => exact leads_onSettled hs free
  | effects es => exact .push (l := es.map .perform) hs rfl rfl rfl (by simp [Work.isFree])
  | shutdown => exact leads_closeDown hs
  | report => exact quiet (.same rfl rfl) rfl
  | trip i =>
      simp only [Move.begin]
      split
      · exact leads_trip hs
      · exact .refl hs
  | awaitRequest i =>
      exact request i fun e => .request e (by simp [Request.await, Request.isSettled]) rfl
  | takeOutcome i =>
      exact request i fun e => .request e (by simp [Request.take, Request.isSettled]) rfl
  | dropFuture i => exact request i fun e => ⟨rfl, rfl, rfl, rfl, rfl, .rfl⟩
  | release i => exact quiet calms_releaseJob (work_releaseJob i s)
  | poll i =>
      simp only [Move.begin]
      split
      · exact .refl hs
      · rename_i rest _
        have hready : s.Calms { s with ready := rest } := .same rfl rfl
        exact hready.trans_leads rfl (leads_poll (hready.fit hs))
  | advance => exact leads_advance hs
  | pause => exact quiet (.same rfl rfl) rfl
  | lose =>
      simp only [Move.begin]
      split
      · rename_i h
        exact leads_lose hs h.2
      · exact .refl hs

end Machine

namespace Slot

open Machine

variable {s : Machine D}

/-- The request whose flag a move sets and leaves it at that. -/
def Move.bare? : Move D → Option Nat
  | .trip i => some i
  | .machine m => m.bare?
  | _ => none

/-- So does what comes to a machine whose slots are driven by hand. -/
theorem begin_leads (m : Move D) (hs : s.Fit) : Leads m.bare? none s (m.begin s) := by
  have one {w : Work D} (hw : w.isFree = true) : ∀ v ∈ [w], v.isFree = true := by simpa using hw
  have listed {id : Nat} {a : Admission}
      (ha : ∀ {i : Nat}, a.Lists i → s.admission.Lists i ∨ i = id) :
      Leads none none s (if (s.entries[id]?).isSome then { s with admission := a } else s) := by
    split
    · rename_i he
      obtain ⟨e, he⟩ := Option.isSome_iff_exists.mp he
      refine .record (l := []) hs rfl (fun hi => ?_) rfl trivial
      obtain hi | rfl := ha hi
      · exact hs.listed hi
      · exact ⟨e, he, trivial⟩
    · exact .refl hs
  cases m with
  | make kind job =>
      exact .append (l := []) hs rfl ⟨fun _ => rfl, fun hv => by cases hv⟩ rfl
        (by simp [Entry.queued]) (fun _ => .inl) rfl trivial
  | dispatch => exact .push hs rfl rfl rfl (one rfl)
  | cancel id =>
      simp only [Move.begin]
      split
      · rename_i he
        obtain ⟨e, he⟩ := Option.isSome_iff_exists.mp he
        exact .record (l := [.cancelSlot id]) hs rfl hs.listed rfl ⟨⟨e, he, trivial⟩, trivial⟩
      · exact .refl hs
  | trip => exact leads_trip hs
  | chain => exact .push hs rfl rfl rfl (one rfl)
  | closePermits =>
      refine (calms_closePermits s).leads_nothing hs ?_
      unfold Machine.closePermits
      split <;> rfl
  | admitRead => exact listed Admission.Lists.of_admitRead
  | admitWrite => exact listed Admission.Lists.of_admitWrite
  | nextSeq | reject => exact .record (l := []) hs rfl hs.listed rfl trivial
  | prune => exact .record (l := []) hs rfl (fun hi => hs.listed hi.of_prune) rfl trivial
  | close =>
      exact .record (l := []) hs rfl (fun hi => absurd hi Admission.not_lists_close) rfl trivial
  | machine m => exact Machine.begin_leads m hs

end Slot

namespace Crew

open Machine

variable {M : Type} {begin : M → Machine D → Machine D} {bare : M → Option Nat} {c d : Crew D}
  {permits : Option Permits} {n : Nat} {past ms : List M} {s t : Machine D}

/-- What holds of a crew whatever its threads do: the work of every thread is in order. -/
structure Fit (c : Crew D) : Prop where
  machine : c.machine.Fit
  inOrder : ∀ {l : List (Work D)}, l ∈ c.threads → c.machine.InOrder [] l

theorem preserves_of_seen {l : List (Work D)} (h : (c.seen l).Preserves t) :
    c.machine.Preserves t := ⟨h.entry⟩

/-- A thread went on that has work left from before. -/
theorem Fit.put {b m : Option Nat} {k : Nat} {rest : List (Work D)} (h : c.Fit)
    (hl : Leads b m (c.seen rest) t) (hrest : t.InOrder [] rest) : (c.put k t).Fit where
  machine := hl.fit
  inOrder {l} hm := by
    obtain hm | rfl := List.mem_or_eq_of_mem_set hm
    · exact (h.inOrder hm).keep_all (preserves_of_seen hl.keeps)
    · obtain ⟨items, hw, hitems⟩ := hl.work
      rw [hw, inOrder_append]
      exact ⟨hitems, hrest.keep (.refl t) fun hi => hi.imp fun _ => Or.imp_right nofun⟩

theorem isSettled_exec {i : Nat} {o : Outcome (Value D)} (h : s.At i fun _ => True) :
    (exec (.settle i o) s).At i (·.request.isSettled = true) := by
  obtain ⟨e, he, _⟩ := h
  simp only [exec, settle, he]
  split
  · rename_i hset
    exact ⟨e, he, hset⟩
  · exact .of_set he rfl (Request.isSettled_publish o _)

/-- When a work item was carried out, what it was to settle has settled. -/
theorem assured_exec {w : Work D} {i : Nat} (hk : s.Preserves (exec w s))
    (h : s.Assured w.settles?.toList i) : (exec w s).Assured [] i := by
  obtain ⟨e, he, hset | hi⟩ := h
  · exact At.keep ⟨e, he, hset⟩ hk fun hef h => .inl (hef.settled h)
  · cases w with
    | settle j o =>
        obtain rfl := List.mem_singleton.mp hi
        exact (isSettled_exec ⟨e, he, trivial⟩).imp fun _ => .inl
    | _ => cases hi

/-- What a step of a thread comes to, as the others see it. -/
structure Advances (bare : M → Option Nat) (ms : List M) (c d : Crew D) : Prop where
  fit : d.Fit
  keeps : c.machine.Preserves d.machine
  flag : ∀ {i : Nat}, d.machine.At i (·.request.tripped = true) →
    c.machine.At i (·.request.tripped = true) ∨ (∃ m ∈ ms, bare m = some i) ∨
      ∃ o rest, .settle i o :: rest ∈ d.threads
  hands : ∀ {i : Nat}, d.machine.At i (·.stage = .dispatched) →
    c.machine.At i (·.stage = .dispatched) ∨ ∃ rest, .dispatch i :: rest ∈ c.threads

/-- Every move keeps what there is, and leaves work in order. -/
def Lawful (begin : M → Machine D → Machine D) (bare : M → Option Nat) : Prop :=
  ∀ (m : M) {s : Machine D}, s.Fit → Leads (bare m) none s (begin m s)

section Moves

variable (hb : Lawful begin bare)

include hb

/-- A step of a thread keeps what there is and the order of work. -/
theorem Step.advances (h : c.Fit) (hs : c.Step begin ms d) : Advances bare ms c d := by
  have hfit (rest : List (Work D)) : (c.seen rest).Fit := ⟨h.machine.entry, h.machine.listed⟩
  have left {k : Nat} {l : List (Work D)} {t : Machine D} (hk : c.threads[k]? = some l) :
      t.work ∈ (c.put k t).threads :=
    List.mem_set (List.getElem?_eq_some_iff.mp hk).1 _
  cases hs with
  | @work k w rest hk =>
      have hm := List.mem_of_getElem? hk
      obtain ⟨hw, hrest⟩ := h.inOrder hm
      have hl : Leads none w.hands? (c.seen rest) (exec w (c.seen rest)) :=
        exec_leads (hfit rest) hw
      have hkeeps := preserves_of_seen hl.keeps
      refine ⟨h.put hl (hrest.keep hkeeps (assured_exec hl.keeps)), hkeeps, fun ht => ?_,
        fun ht => ?_⟩
      · obtain ht | hn | ⟨o, r, hr⟩ := hl.flag ht
        · exact .inl ht
        · cases hn
        · exact .inr (.inr ⟨o, r, hr ▸ left hk⟩)
      · refine (hl.hands ht).imp id fun hw => ⟨rest, ?_⟩
        cases w with
        | dispatch i =>
            obtain rfl := Option.some.inj hw
            exact hm
        | _ => cases hw
  | @move k m hk =>
      have hl : Leads (bare m) none (c.seen []) (begin m (c.seen [])) := hb m (hfit [])
      refine ⟨h.put hl trivial, preserves_of_seen hl.keeps, fun ht => ?_, fun ht => ?_⟩
      · obtain ht | hm | ⟨o, r, hr⟩ := hl.flag ht
        · exact .inl ht
        · exact .inr (.inl ⟨m, List.mem_singleton_self m, hm⟩)
        · exact .inr (.inr ⟨o, r, hr ▸ left hk⟩)
      · exact .inl ((hl.hands ht).resolve_right (by simp))

theorem History.fit (h : History begin permits n past c) : c.Fit := by
  induction h with
  | start =>
      refine ⟨⟨fun he => by simp [Crew.start, Machine.start] at he, fun hi => ?_⟩, fun hl => ?_⟩
      · simp [Crew.start, Machine.start, Admission.Lists] at hi
      · rw [List.eq_of_mem_replicate hl]
        trivial
  | next _ hs ih => exact (hs.advances hb ih).fit

end Moves

end Crew

theorem Machine.lawful_begin : Crew.Lawful (D := D) Move.begin Move.bare? :=
  fun m => begin_leads m

theorem Slot.lawful_begin : Crew.Lawful (D := D) Move.begin Move.bare? :=
  fun m => begin_leads m

end RequestScheduler
