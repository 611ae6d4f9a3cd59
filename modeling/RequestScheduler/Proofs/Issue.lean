import RequestScheduler.Proofs.Order

/-!
# Where work comes from

A work item was left by an act, and the act had a reason to leave it (`Issued`). A request is to
settle as cancelled when its flag has just been set or its task has just ended; a task is to end
when it was heard, or gives up, or goes with the runtime; a request is superseded by a write that
found it outstanding. `Act.issues` says so of every act.

What a callback answered is published at once: nothing but log events stands in front of it
(`Prompt`).
-/

namespace RequestScheduler

variable {D : Type}

namespace Work

/-- Whether a work item only logs. -/
def isNote : Work D → Bool
  | .note _ => true
  | _ => false

/-- Whether a work item publishes what only a callback can answer. -/
def isAnswer : Work D → Bool
  | .settle _ (.error .cancelled) | .settle _ (.error .shutdownRejected) => false
  | .settle .. => true
  | _ => false

/-- The request whose slot a work item skips when it has cancelled it. -/
def skips? : Work D → Option Nat
  | .cancelSlot i | .supersede i _ | .cancelEach (i :: _) _ _ => some i
  | _ => none

/-- Whether an act needs no reason to leave a work item. -/
def isPlain : Work D → Bool
  | .settle .. | .cancelSlot _ | .supersede .. | .cancelEach .. | .skip _ => false
  | .endTask _ | .park .. | .finish .. => false
  | _ => true

end Work

namespace Machine

/-- The request was admitted and occupies its slot. -/
def Outstanding (s : Machine D) (i : Nat) : Prop :=
  s.At i fun e => e.stage ≠ .refused ∧ e.isVacated = false

/-- The work but for the log events that come first. -/
def pressing (s : Machine D) : List (Work D) := s.work.dropWhile Work.isNote

/-- Why an act that leads from `s` to `t` leaves a work item. -/
inductive Issued (s t : Machine D) (a : Act D) : Work D → Prop
  | plain {w : Work D} (hw : w.isPlain = true) : Issued s t a w
  /-- The flag of the request was set. -/
  | cancel {i : Nat} (ht : t.At i (·.request.tripped = true)) :
      Issued s t a (.settle i (.error .cancelled))
  /-- The task of the request ended. -/
  | abandon {i : Nat} (ha : a = .item (.endTask i)) (ht : t.At i (·.task = .ended)) :
      Issued s t a (.settle i (.error .cancelled))
  /-- The request came too late. -/
  | refuse {i : Nat} (ht : t.At i (·.stage = .refused)) :
      Issued s t a (.settle i (.error .shutdownRejected))
  /-- The task heard what the callback returned. -/
  | publish {i : Nat} {o : Outcome (Value D)} (hs : s.At i (·.callback = .returned o))
      (ht : t.At i (·.task = .working)) (hp : t.pressing = [.settle i o, .endTask i])
      (ha : a = .move (.poll i)) : Issued s t a (.settle i o)
  /-- The act admits a write. -/
  | supersede {i : Nat} {body : Body D} (ha : a.submits? = some (.write, body))
      (hc : s.admission.closed = false) (hi : s.Outstanding i)
      (hm : i ∈ s.admission.reads ∨ s.admission.currentWrite = some i) :
      Issued s t a (.supersede i s.entries.length)
  /-- The slot was cancelled. -/
  | skip {i : Nat} {w : Work D} (ha : a = .item w) (hw : w.skips? = some i) : Issued s t a (.skip i)
  | cancelSlot {i : Nat} (ha : a.cancelsAll = true) (hi : s.Outstanding i) :
      Issued s t a (.cancelSlot i)
  | collect {ids : List Nat} {total count : Nat} (ha : a.cancelsAll = true)
      (hi : ∀ i ∈ ids, s.Outstanding i) : Issued s t a (.cancelEach ids total count)
  /-- One of the pending cancellations was carried out. -/
  | proceed {i : Nat} {ids : List Nat} {total count next : Nat}
      (ha : a = .item (.cancelEach (i :: ids) total count)) :
      Issued s t a (.cancelEach ids total next)
  /-- The task gives up. -/
  | stop {i : Nat} (ht : t.At i (·.request.tripped = true)) : Issued s t a (.endTask i)
  /-- The task is to end when its request has settled. -/
  | hear {i : Nat} {o : Outcome (Value D)} (hp : t.pressing = [.settle i o, .endTask i]) :
      Issued s t a (.endTask i)
  /-- The task goes with the runtime. -/
  | lose {i : Nat} (ht : t.live = false) : Issued s t a (.endTask i)
  | park {i : Nat} {body : Body D} (hs : s.At i (·.callback = .offered body)) :
      Issued s t a (.park i body)
  | finish {i : Nat} {body : Body D}
      (hs : s.At i fun e => e.callback = .offered body ∨ e.callback = .parked body) :
      Issued s t a (.finish i body.result)

/-- The act leaves work in front of what remains, and has reasons for all of it. -/
def Issues (a : Act D) (s t : Machine D) : Prop :=
  ∃ items, t.work = items ++ s.work.tail ∧ ∀ w ∈ items, Issued s t a w

variable {s t u : Machine D} {a : Act D} {i : Nat} {e : Entry D} {w : Work D}
  {l after : List (Work D)} {kind : Kind} {body : Body D}

theorem Issues.plain (ht : t.work = l ++ s.work.tail) (hi : ∀ w ∈ l, w.isPlain = true) :
    Issues a s t :=
  ⟨l, ht, fun w hw => .plain (hi w hw)⟩

theorem Issues.none (ht : t.work = s.work.tail) : Issues a s t :=
  .plain (l := []) ht (List.forall_mem_nil _)

theorem isPlain_run (l : List (Continuation D)) : ∀ w ∈ l.map Work.run, w.isPlain = true := by
  simp [Work.isPlain]

theorem isPlain_perform (l : List (Effect D)) : ∀ w ∈ l.map Work.perform, w.isPlain = true := by
  simp [Work.isPlain]

/-- Whom the record lists once it has been pruned is outstanding. -/
theorem Sound.outstanding (h : s.Sound)
    (hi : i ∈ (s.admission.prune s.vacated).reads ∨ i ∈ (s.admission.prune s.vacated).writes ∨
      (s.admission.prune s.vacated).currentWrite = some i) : s.Outstanding i := by
  simp only [Admission.prune, List.mem_filter, Option.filter_eq_some_iff] at hi
  have hlisted : s.At i (·.stage ≠ .refused) :=
    h.listed (hi.imp And.left (Or.imp And.left And.left))
  have hvacated : s.vacated i = false := by
    simpa using hi.elim And.right (Or.elim · And.right And.right)
  obtain ⟨e, he, hr⟩ := hlisted
  exact ⟨e, he, hr, by simpa [vacated, he] using hvacated⟩

/-- A cancellation sets the flag. -/
theorem at_cancelThen (he : s.entries[i]? = some e) (after : List (Work D)) :
    (s.cancelThen i after).At i (·.request.tripped = true) := by
  simp only [cancelThen, trip, he]
  exact .of_set he rfl rfl

theorem issues_cancelThen (he : u.entries[i]? = some e) (hu : u.work = s.work.tail)
    (ha : ∀ w ∈ after, Issued s (u.cancelThen i after) a w) :
    Issues a s (u.cancelThen i after) := by
  refine ⟨.settle i (.error .cancelled) :: after, ?_,
    List.forall_mem_cons.mpr ⟨.cancel (at_cancelThen he after), ha⟩⟩
  simp [cancelThen, trip, he, push, put, hu]

theorem issues_cancelAll (hs : s.Sound) (ha : a.cancelsAll = true)
    (hu : u = { s with work := s.work.tail }) (hp : ∀ w ∈ after, w.isPlain = true) :
    Issues a s (u.cancelAll after) := by
  subst hu
  refine ⟨_ :: after, rfl, List.forall_mem_cons.mpr
    ⟨.collect ha fun i hi => hs.outstanding ?_, fun w hw => .plain (hp w hw)⟩⟩
  exact (List.mem_append.mp hi).symm.imp id .inl

theorem issues_submit (hs : s.Sound) (ha : a.submits? = some (kind, body))
    (hu : u = { s with work := s.work.tail }) (hp : ∀ w ∈ after, w.isPlain = true) :
    Issues a s (u.submit kind body after) := by
  subst hu
  have follow (n : Nat) : ∀ w ∈ Work.handOver n :: after, w.isPlain = true :=
    List.forall_mem_cons.mpr ⟨rfl, hp⟩
  unfold submit
  dsimp only
  split
  · exact ⟨_ :: .handOver s.entries.length :: after, rfl, List.forall_mem_cons.mpr
      ⟨.refuse (.of_append rfl rfl), fun w hw => .plain (follow _ w hw)⟩⟩
  rename_i hc
  cases kind with
  | read =>
      dsimp only
      split
      · exact .plain (l := .dispatch _ :: .note _ :: .handOver _ :: after) rfl
          (List.forall_mem_cons.mpr ⟨rfl, List.forall_mem_cons.mpr ⟨rfl, follow _⟩⟩)
      · exact .plain (l := .chain _ _ :: .handOver _ :: after) rfl
          (List.forall_mem_cons.mpr ⟨rfl, follow _⟩)
  | write =>
      refine ⟨_, rfl, fun w hw => ?_⟩
      obtain hw | hw := List.mem_append.mp hw
      · obtain ⟨i, hi, rfl⟩ := List.mem_map.mp hw
        have hi : i ∈ (s.admission.prune s.vacated).reads ∨
            (s.admission.prune s.vacated).currentWrite = some i :=
          (List.mem_append.mp hi).imp_right Option.mem_toList.mp
        refine .supersede ha (by simpa using hc) (hs.outstanding (hi.imp_right .inr)) ?_
        exact hi.imp (fun hi => (List.mem_filter.mp hi).1) fun hi =>
          (Option.filter_eq_some_iff.mp hi).1
      · obtain rfl | hw := List.mem_cons.mp hw
        · exact .plain rfl
        · exact .plain (follow _ w hw)

theorem issues_onSettled {tag : D} {effects : List (Effect D)}
    (hu : u = { s with work := s.work.tail }) (hp : ∀ w ∈ after, w.isPlain = true) :
    Issues a s (u.onSettled i tag effects after) := by
  subst hu
  unfold onSettled
  dsimp only
  split
  · exact .plain rfl hp
  split
  · exact .plain (l := .run (.react tag effects) :: after) rfl
      (List.forall_mem_cons.mpr ⟨rfl, hp⟩)
  · exact .plain rfl hp

theorem issues_skip (hu : u.work = s.work.tail) : Issues a s (u.skip i) := by
  unfold skip
  split
  · exact .none hu
  split
  · exact .plain (l := [.openVacancy i]) (by simp [push, note, put, hu]) (by simp [Work.isPlain])
  · exact .none hu

theorem issues_openVacancy (hu : u.work = s.work.tail) (hp : ∀ w ∈ after, w.isPlain = true) :
    Issues a s (u.openVacancy i after) := by
  unfold openVacancy
  split
  · exact .none hu
  rename_i e _
  split
  · exact .none hu
  · exact .plain (l := e.vacancy.continuations.map .run ++ after) (by simp [hu])
      (List.forall_mem_append.mpr ⟨isPlain_run _, hp⟩)

/-- A client's code leaves work for the reasons given. -/
theorem issues_perform (c : Effect D) (hs : s.Sound) :
    Issues (.item (.perform c)) s (perform c { s with work := s.work.tail }) := by
  cases c with
  | set | add | mul | log | status | snapshot => exact .none rfl
  | submit => exact issues_submit hs rfl rfl (by simp [Work.isPlain])
  | cancel i =>
      unfold perform
      dsimp only
      split
      · exact .none rfl
      · rename_i e he
        refine issues_cancelThen (u := { s with work := s.work.tail })
          (Option.filter_eq_some_iff.mp he).1 rfl fun w hw => .plain ?_
        obtain rfl := List.mem_singleton.mp hw
        rfl
  | cancelAll => exact issues_cancelAll hs rfl rfl (by simp [Work.isPlain])
  | onSettled i tag effects =>
      unfold perform
      dsimp only
      split
      · exact .none rfl
      · exact issues_onSettled rfl (by simp [Work.isPlain])

/-- The end of a task lets its request settle and its slot vacate. -/
theorem issues_endTask (s : Machine D) :
    Issues (.item (.endTask i)) s (endTask i { s with work := s.work.tail }) := by
  unfold endTask
  dsimp only
  split
  · exact .none rfl
  rename_i e he
  generalize hu : put i { e with task := .ended, callback := e.callback.close }
    { s with work := s.work.tail, ready := s.ready.remove i } = u
  have hended : u.At i (·.task = .ended) := hu ▸ .of_set he rfl rfl
  have hwork : u.work = s.work.tail := by rw [← hu]; rfl
  have last {v : Machine D} (hv : v.At i (·.task = .ended)) (hw : v.work = u.work) :
      Issues (.item (.endTask i)) s (v.push [.settle i (.error .cancelled), .vacate i]) :=
    ⟨[.settle i (.error .cancelled), .vacate i], by simp [push, hw, hwork],
      List.forall_mem_cons.mpr ⟨.abandon rfl hv, List.forall_mem_singleton.mpr (.plain rfl)⟩⟩
  have back : u.putPermit.At i (·.task = .ended) := by
    obtain ⟨f, hf, hended⟩ := hended
    obtain ⟨g, hg, hfg⟩ := (touches_putPermit u).1.entry hf
    exact ⟨g, hg, hfg.grows.ended hended⟩
  split
  · exact last back (touches_putPermit u).2
  · exact last back (touches_putPermit u).2
  · exact last hended rfl
  · exact last hended rfl

/-- Work leaves further work for the reasons given. -/
theorem exec_issues (w : Work D) (hs : s.Sound) (hw : w ∈ s.work) :
    Issues (.item w) s (exec w { s with work := s.work.tail }) := by
  have hsound : w.Sound s := hs.work hw
  cases w with
  | perform c => exact issues_perform c hs
  | emit | note | reportTally => exact .none rfl
  | run k =>
      cases k with
      | release g => exact .plain (l := [.release g]) rfl (by simp [Work.isPlain])
      | react tag effects => exact .plain rfl (isPlain_perform effects)
      | announce => exact .none rfl
  | settle i o =>
      simp only [exec, settle]
      split
      · exact .none rfl
      split
      · exact .none rfl
      · exact .plain rfl (isPlain_run _)
  | cancelSlot i =>
      obtain ⟨e, he, _⟩ := hsound
      exact issues_cancelThen (u := { s with work := s.work.tail }) he rfl
        (List.forall_mem_singleton.mpr (.skip rfl rfl))
  | supersede i x =>
      obtain ⟨⟨e, he, _⟩, f, hf, _⟩ := hsound
      simp only [exec, supersede, he, hf]
      refine issues_cancelThen (u := { s with work := s.work.tail }) he rfl fun w hw => ?_
      obtain rfl | hw := List.mem_cons.mp hw
      · exact .skip rfl rfl
      · split at hw
        · cases hw
        · exact .plain (List.mem_singleton.mp hw ▸ rfl)
  | cancelEach ids total count =>
      cases ids with
      | nil => exact .none rfl
      | cons i ids =>
          obtain ⟨e, he, _⟩ := hsound i List.mem_cons_self
          refine issues_cancelThen (u := { s with work := s.work.tail }) he rfl ?_
          exact List.forall_mem_cons.mpr
            ⟨.skip rfl rfl, List.forall_mem_singleton.mpr (.proceed rfl)⟩
  | skip i => exact issues_skip rfl
  | openVacancy i => exact issues_openVacancy rfl (List.forall_mem_nil _)
  | vacate i =>
      simp only [exec, vacate]
      split
      · exact .none rfl
      · exact issues_openVacancy rfl (by simp [Work.isPlain])
  | dispatch i =>
      simp only [exec, dispatch]
      split
      · exact .none rfl
      split
      · split
        · exact issues_skip rfl
        · split
          · exact .none rfl
          · rename_i hl
            exact ⟨[.endTask i], rfl,
              List.forall_mem_singleton.mpr (.lose (Bool.not_eq_true _ ▸ hl))⟩
      · exact .none rfl
  | chain x ds =>
      exact .plain (l := ds.map (Work.await s.gates.length) ++ [.release s.gates.length])
        (by simp [exec, chain]) (by simp [Work.isPlain, or_imp, forall_and])
  | await g d =>
      simp only [exec, await]
      split
      · exact .none rfl
      split
      · exact .plain (l := [.release g]) rfl (by simp [Work.isPlain])
      · exact .none rfl
  | release g =>
      simp only [exec, release]
      split
      · exact .none rfl
      rename_i gate _
      by_cases hg : gate.remaining = 1
      · exact .plain (l := [.dispatch gate.slot]) (by simp [hg]) (by simp [Work.isPlain])
      · exact .none (by simp [hg])
  | endTask i => exact issues_endTask s
  | handOver i | park i body =>
      simp only [exec, handOver, park]
      split
      · exact .none rfl
      · exact .none rfl
  | finish i result =>
      simp only [exec, finish]
      split
      · exact .none rfl
      split
      · exact .none rfl
      · exact .none rfl

/-- A task that gives up has its request cancelled. -/
theorem issues_closeOut (he : u.entries[i]? = some e) (hu : u.work = s.work.tail) :
    Issues a s (u.closeOut i) := by
  have stop {v : Machine D} {f : Entry D} (hf : v.entries[i]? = some f)
      (hv : v.work = s.work.tail) : Issues a s (v.cancelThen i [.endTask i]) :=
    issues_cancelThen hf hv (List.forall_mem_singleton.mpr (.stop (at_cancelThen hf _)))
  have hset := getElem?_set_of_some (b := { e with task := .ended }) he
  unfold closeOut
  simp only [he]
  split
  · obtain ⟨f, hf, _⟩ := (touches_putPermit (u.put i { e with task := .ended })).1.entry hset
    exact stop hf ((touches_putPermit _).2.trans hu)
  · exact stop hset hu

theorem dropWhile_panicNote (kind : Kind) (o : Outcome (Value D)) (l : List (Work D)) :
    (panicNote kind o ++ l).dropWhile Work.isNote = l.dropWhile Work.isNote := by
  apply List.dropWhile_append_of_pos
  simp [panicNote, Work.isNote]

/-- A task that hears its callback publishes the outcome and ends. -/
theorem issues_hear {o : Outcome (Value D)} (he : u.entries[i]? = some e)
    (ht : e.task = .working) (ho : e.callback = .returned o) (hs : s.entries = u.entries)
    (hu : u.work = []) (hw : s.work = []) : Issues (.move (.poll i)) s
      ((u.put i { e with callback := .spent }).push
        (panicNote e.kind o ++ [.settle i o, .endTask i])) := by
  have hpressing : ((u.put i { e with callback := .spent }).push
      (panicNote e.kind o ++ [.settle i o, .endTask i])).pressing =
      [.settle i o, .endTask i] := by
    simp [pressing, push, put, hu, dropWhile_panicNote, Work.isNote]
  refine ⟨panicNote e.kind o ++ [.settle i o, .endTask i], by simp [push, put, hu, hw],
    List.forall_mem_append.mpr ⟨fun v hv => .plain ?_, List.forall_mem_cons.mpr
      ⟨.publish ⟨e, hs ▸ he, ho⟩ (.of_set (f := { e with callback := .spent }) he rfl ht) hpressing
        rfl, List.forall_mem_singleton.mpr (.hear hpressing)⟩⟩⟩
  obtain ⟨t, _, rfl⟩ := List.mem_map.mp hv
  rfl

/-- A poll leaves work for the reasons given. -/
theorem issues_poll (hc : u.Coherent) (hs : s.entries = u.entries) (hu : u.work = [])
    (hw : s.work = []) : Issues (.move (.poll i)) s (u.poll i) := by
  have htail : u.work = s.work.tail := by simp [hu, hw]
  cases he : u.entries[i]? with
  | none =>
      simp only [poll, he]
      exact .none htail
  | some e =>
  have h := polled (hc he) he
  generalize u.poll i = t at h ⊢
  cases h with
  | idle | enqueue | take | start => exact .none htail
  | closed => exact issues_closeOut he htail
  | hear ht ho => exact issues_hear he ht ho hs hu hw

/-- A callback performs its code until it parks or returns. -/
theorem issues_lead {p : List (Effect D)} (h : s.work = []) (ht : t.work = p.map .perform ++ [w])
    (hw : Issued s t a w) : Issues a s t := by
  refine ⟨p.map .perform ++ [w], by simp [ht, h], List.forall_mem_append.mpr
    ⟨fun v hv => .plain (isPlain_perform p v hv), List.forall_mem_singleton.mpr hw⟩⟩

theorem issues_advance (h : s.work = []) : Issues a s (s.advance i) := by
  unfold advance
  split
  · exact .none (by simp [h])
  rename_i e he
  split
  · rename_i body hb
    cases hm : body.mode with
    | straight =>
        exact issues_lead (p := body.pre ++ body.post) h (by simp [push, put, emit, pause, h])
          (.finish ⟨e, he, .inl hb⟩)
    | hold | cooperative =>
        exact issues_lead (p := body.pre) h (by simp [push, put, emit, pause, h])
          (.park ⟨e, he, hb⟩)
  · rename_i body hb
    exact issues_lead (p := body.post) h (by simp [push, put, emit, pause, h])
      (.finish ⟨e, he, .inr hb⟩)
  · exact .none (by simp [h])

/-- A move leaves work for the reasons given. -/
theorem begin_issues (hs : s.Sound) (h : s.work = []) (m : Move D) :
    Issues (.move m) s (m.begin s) := by
  have htail : s.work = s.work.tail := by simp [h]
  have hself : s = { s with work := s.work.tail } := by
    rw [← htail]
  have hn : ∀ w ∈ ([] : List (Work D)), w.isPlain = true := List.forall_mem_nil _
  cases m with
  | submit kind body => exact issues_submit hs rfl hself hn
  | cancel i =>
      simp only [Move.begin]
      split
      · rename_i hi
        obtain ⟨e, he⟩ := Option.isSome_iff_exists.mp hi
        exact issues_cancelThen he htail (List.forall_mem_nil _)
      · exact .none htail
  | cancelAll => exact issues_cancelAll hs rfl hself hn
  | snapshot | report | pause => exact .none htail
  | onSettled => exact issues_onSettled hself hn
  | effects es => exact .plain (by simp [Move.begin, push, h]) (isPlain_perform es)
  | shutdown =>
      refine ⟨(s.admission.close s.vacated).1.map .cancelSlot, ?_, fun w hw => ?_⟩
      · rw [h, List.tail_nil, ← h]
        exact work_closeDown s
      · obtain ⟨i, hi, rfl⟩ := List.mem_map.mp hw
        exact .cancelSlot rfl (hs.outstanding ((List.mem_append.mp hi).symm.imp id .inl))
  | trip i =>
      simp only [Move.begin, trip]
      split
      · split
        · exact .none htail
        · exact .none htail
      · exact .none htail
  | awaitRequest | takeOutcome | dropFuture => exact .none ((work_modify ..).trans htail)
  | release i => exact .none ((work_releaseJob ..).trans htail)
  | poll i =>
      simp only [Move.begin]
      split
      · exact .none htail
      · rename_i rest _
        exact issues_poll (u := { s with ready := rest }) hs.isCoherent rfl h h
  | advance i => exact issues_advance h
  | lose tasks =>
      simp only [Move.begin]
      split
      · refine ⟨tasks.map .endTask, by simp [push, h], fun w hw => ?_⟩
        obtain ⟨i, _, rfl⟩ := List.mem_map.mp hw
        exact .lose rfl
      · exact .none htail

/-- Whatever a machine does, it has reasons for the work that it leaves. -/
theorem Act.issues (ha : a.Enabled s) (hs : s.Sound) : Issues a s (a.apply s) := by
  cases a with
  | item w => exact exec_issues w hs (List.mem_of_mem_head? ha)
  | move m => exact begin_issues hs ha m

/-- Work was left by the act, or was there before and has not come first. -/
theorem Act.Enabled.issued (ha : a.Enabled s) (hs : s.Sound) (hw : w ∈ (a.apply s).work) :
    w ∈ s.work.tail ∨ Issued s (a.apply s) a w := by
  obtain ⟨items, ht, hi⟩ := Act.issues ha hs
  rw [ht, List.mem_append] at hw
  exact hw.symm.imp_right (hi w)

/-- An event is logged, or what is done is the most pressing work. -/
theorem Act.Enabled.pressing (ha : a.Enabled s) :
    (∃ n, a = .item (.note n) ∧ (a.apply s).pressing = s.pressing) ∨ s.pressing = s.work := by
  cases a with
  | move m => exact .inr (by simp [Machine.pressing, show s.work = [] from ha])
  | item w =>
      obtain ⟨rest, hw⟩ := Act.enabled_item.mp ha
      cases w with
      | note n =>
          refine .inl ⟨n, rfl, ?_⟩
          rw [Act.apply_item hw, Machine.pressing, Machine.pressing, hw]
          rfl
      | _ => exact .inr (by simp [Machine.pressing, hw, Work.isNote])

/-- What a callback answered is published by the most pressing work, if it is not published yet. -/
def Prompt (s : Machine D) : Prop := ∀ w ∈ s.pressing.tail, w.isAnswer = false

/-- An answer is left by a task that hears it, together with the end of the task. -/
theorem Issued.of_isAnswer (h : Issued s t a w) (hw : w.isAnswer = true) :
    ∃ i o, w = .settle i o ∧ s.At i (·.callback = .returned o) ∧ t.At i (·.task = .working) ∧
      t.pressing = [.settle i o, .endTask i] := by
  cases h with
  | publish hs ht hp => exact ⟨_, _, rfl, hs, ht, hp⟩
  | plain hn => cases w <;> simp_all [Work.isPlain, Work.isAnswer]
  | _ => cases hw

/-- While an answer stands behind other work, events are logged. -/
theorem Prompt.note (h : s.Prompt) (ha : a.Enabled s) (hw : w ∈ s.work.tail)
    (hn : w.isAnswer = true) : ∃ n, a = .item (.note n) ∧ (a.apply s).pressing = s.pressing := by
  refine ha.pressing.resolve_right fun hp => ?_
  have := h w (hp ▸ hw)
  simp [hn] at this

/-- Answers stay prompt. -/
theorem Prompt.apply (h : s.Prompt) (ha : a.Enabled s) (hs : s.Sound) : (a.apply s).Prompt := by
  intro w hw
  apply Bool.eq_false_iff.mpr
  intro hn
  have hmem : w ∈ (a.apply s).work :=
    (List.dropWhile_sublist _).subset (List.mem_of_mem_tail hw)
  obtain hold | hnew := ha.issued hs hmem
  · obtain ⟨_, _, hp⟩ := h.note ha hold hn
    have := h w (hp ▸ hw)
    simp [hn] at this
  · obtain ⟨i, o, rfl, _, _, hp⟩ := hnew.of_isAnswer hn
    rw [hp] at hw
    cases List.mem_singleton.mp hw

theorem Reachable.prompt {permits : Option Permits} (h : Reachable permits s) : s.Prompt :=
  Run.act_induction h (valid_start permits) (fun w hw => by simp [start, Machine.pressing] at hw)
    fun hu hp ha => hp.apply ha hu.sound

end Machine

end RequestScheduler
