import RequestScheduler.Proofs.Blocked
import RequestScheduler.Proofs.Issue
import RequestScheduler.Proofs.Lifecycle

/-!
# Whom a write supersedes

A write cancels the reads that are outstanding, in the order of their admission, and then the write
before it. Reads may wait for that write, and the write for reads, so a cancellation may release
gates of others. Still whoever is queued leaves the queue without having been dispatched: a write
waits for reads that do not vacate, and a read that waits for the write has its turn before the
write has (`Machine.Shielded`). Settlements may submit further requests meanwhile, which take nobody
out of the queue before its turn; a bulk cancellation would, since it comes to the writes first.

Whoever was dispatched is left to its task, which invokes the callback once (`Machine.Invoked`).
-/

namespace RequestScheduler

variable {D : Type}

theorem Work.takesOut_of_skips? {w : Work D} {x : Nat} (h : w.skips? = some x) : w.takesOut x := by
  cases w with
  | cancelSlot | supersede => exact Option.some.inj h
  | cancelEach ids =>
      cases ids with
      | nil => cases h
      | cons i ids =>
          obtain rfl := Option.some.inj h
          exact List.mem_cons_self
  | _ => cases h

theorem Work.not_takesOut_of_isPlain {w : Work D} {x : Nat} (h : w.isPlain = true) :
    ¬w.takesOut x := by
  cases w with
  | cancelSlot | supersede | cancelEach | skip => cases h
  | _ => exact id

/-- A publication is of an outcome, or finds the request settled. -/
theorem Entry.Edit.published {o : Outcome (Value D)} {n : Int64} {p : Option Permits} {i : Nat}
    {e f : Entry D} (h : e.Edit (.item (.settle i o)) n p i f) :
    f.request.cell.value? = e.request.cell.value? ∨ f.request = e.request.publish o := by
  cases h with
  | publish ha =>
      obtain ⟨_, rfl⟩ := Work.settle.inj (Machine.Act.item.inj ha)
      exact .inr rfl
  | register => exact .inl (Cell.value?_register _ _)
  | await => exact .inl (Cell.value?_await _ _)
  | take => exact .inl (Cell.value?_take _)
  | _ => exact .inl rfl

namespace Machine

variable {s t u : Machine D} {bound : Option Nat} {permits : Option Permits} {d i x : Nat}
  {e f : Entry D} {v w : Work D} {front rest items l : List (Work D)} {body : Body D} {kind : Kind}

/-- There are reasons for what an item leaves. -/
theorem Carries.issued (h : s.Carries w l rest items t) (hv : v ∈ items) :
    Issued s t (.item w) v := by
  obtain ⟨m, hwork, hm⟩ := exec_issues w h.valid.sound (by rw [h.work]; exact List.mem_cons_self)
  have htail : s.work.tail = l ++ rest := by rw [h.work]; rfl
  rw [htail] at hwork hm
  obtain rfl := h.items_eq hwork
  exact h.eq ▸ hm v hv

/-! ### Who is cancelled -/

/-- The request was admitted and can come to no outcome but to be cancelled. -/
structure Doomed (s : Machine D) (x : Nat) (front : List (Work D)) : Prop where
  outcome : s.At x fun e => e.stage ≠ .refused ∧
    (e.request.cell.value? = none ∨ e.request.cell.value? = some (.error .cancelled))
  front : ∀ o, .settle x o ∈ front → o = .error .cancelled

theorem Doomed.carry (hx : s.Doomed x (w :: l)) (h : s.Carries w l rest items t) :
    t.Doomed x (items ++ l) := by
  obtain ⟨e, he, hr, hv⟩ := hx.outcome
  obtain ⟨g, hg, heg⟩ := h.grows.entry he
  refine ⟨⟨g, hg, mt heg.refused.mp hr, ?_⟩, fun o ho => ?_⟩
  · obtain ⟨f, hf, hef⟩ := (exec_edits w { s with work := l ++ rest }).entry he
    rw [← h.eq] at hf
    obtain rfl := Option.some.inj (hg.symm.trans hf)
    by_cases hw : ∃ o, w = .settle x o
    · obtain ⟨o, rfl⟩ := hw
      obtain rfl := hx.front o List.mem_cons_self
      obtain hsame | hpublish := hef.published
      · exact hsame ▸ hv
      · have hresolve : e.request.resolve (.error .cancelled) = .error .cancelled := by
          unfold Request.resolve
          split <;> rfl
        rw [hpublish, Request.value?_publish, hresolve]
        obtain hv | hv := hv <;> simp [hv]
    · obtain hsame | ⟨o, ha⟩ := hef.value
      · exact hsame ▸ hv
      · exact absurd ⟨o, Act.item.inj ha⟩ hw
  · obtain ho | ho := List.mem_append.mp ho
    · cases h.issued ho with
      | plain hp => cases hp
      | cancel | abandon => rfl
      | refuse ht => exact absurd (heg.refused.mp (ht.of_entry hg)) hr
      | publish _ _ _ ha => cases ha
    · exact hx.front o (List.mem_cons_of_mem _ ho)

/-! ### Who is queued -/

/-- A read waits for a write that is itself queued, and that a later write has outrun. The turn of
the read comes before anything takes the write out of the queue. -/
structure Shielded (s : Machine D) (x d : Nat) (front : List (Work D)) : Prop where
  awaits : s.Awaits x d
  write : s.Accepted .write d
  queued : s.At d (·.stage = .queued)
  held : ∃ r, s.Awaits d r ∧ s.Standing r front
  outrun : ∃ w, s.Accepted .write w ∧ d < w
  turn : ∃ (pre post : List (Work D)) (w : Nat), front = pre ++ post ∧ .supersede x w ∈ pre ∧
    ∀ v ∈ pre, ¬v.takesOut d

/-- Nothing is left that takes a write out of the queue which a later write has outrun, but by what
does so itself, and by a bulk cancellation. -/
theorem Carries.spares (h : s.Carries w l rest items t) (hw : (Act.item w).cancelsAll = false)
    (hd : s.Accepted .write d) (ho : ∃ w, s.Accepted .write w ∧ d < w) (hn : ¬w.takesOut d)
    (hv : v ∈ items) : ¬v.takesOut d := by
  intro hx
  cases h.issued hv with
  | plain hp => exact Work.not_takesOut_of_isPlain hp hx
  | supersede _ _ _ hm =>
      obtain rfl := hx
      obtain hread | hcurrent := hm
      · cases (h.valid.recorded.read hread).kind_unique hd
      · obtain ⟨u, hu, hlt⟩ := ho
        exact (h.valid.recorded.current hcurrent).last hlt hu.lt hu
  | skip ha hskip =>
      obtain rfl := hx
      obtain rfl := Act.item.inj ha
      exact hn (Work.takesOut_of_skips? hskip)
  | cancelSlot ha | collect ha => cases hw.symm.trans ha
  | proceed ha =>
      obtain rfl := Act.item.inj ha
      exact hn (List.mem_cons_of_mem _ hx)
  | _ => cases hx

/-- Nobody is dispatched who waits for a slot that is occupied. -/
theorem Carries.not_dispatch (h : s.Carries w l rest items t) (ha : s.Awaits x d)
    (hv : s.vacated d = false) : w ≠ .dispatch x := by
  rintro rfl
  have hduty : .dispatch x ∈ s.duties :=
    List.mem_filter.mpr ⟨by rw [h.work]; exact List.mem_cons_self, rfl⟩
  exact h.valid.gated.not_held hduty (h.valid.gated.held ha hv)

theorem Shielded.occupied (hs : s.Shielded x d front) (h : s.Valid) : s.vacated d = false := by
  obtain ⟨e, he, hq⟩ := hs.queued
  rw [vacated, he]
  exact ((h.sound.entry he).coherent.queued hq).2.1

/-- A read that is shielded goes on to be so, until its turn has come. -/
theorem Shielded.carry (hs : s.Shielded x d (w :: l)) (h : s.Carries w l rest items t)
    (hw : (Act.item w).cancelsAll = false) :
    t.At x (·.request.tripped = true) ∨ t.Shielded x d (items ++ l) := by
  obtain ⟨pre, post, n, hfront, hturn, hpre⟩ := hs.turn
  cases pre with
  | nil => cases hturn
  | cons v pre =>
  rw [List.cons_append] at hfront
  obtain ⟨rfl, rfl⟩ := List.cons.inj hfront
  obtain rfl | hturn := List.mem_cons.mp hturn
  · left
    obtain ⟨⟨e, he, _⟩, f, hf, _⟩ := h.valid.sound.work (w := .supersede x n) (by simp [h.work])
    rw [h.eq]
    simp only [exec, supersede, he, hf]
    exact at_cancelThen (s := { s with work := pre ++ post ++ rest }) he _
  right
  obtain ⟨r, har, hr⟩ := hs.held
  have hn : ¬w.takesOut d := hpre w List.mem_cons_self
  have hskip : w ≠ .skip d := by
    rintro rfl
    exact hn rfl
  refine ⟨h.awaits hs.awaits, hs.write.grow h.grows,
    h.queued hs.queued hskip (h.not_dispatch har hr.occupied), ⟨r, h.awaits har, hr.carry h⟩,
    hs.outrun.imp fun _ hw => hw.imp_left (·.grow h.grows), items ++ pre, post, n, by simp,
    List.mem_append_right _ hturn, fun v hv => ?_⟩
  obtain hv | hv := List.mem_append.mp hv
  · exact h.spares hw hs.write hs.outrun hn hv
  · exact hpre v (List.mem_cons_of_mem _ hv)

/-- Whatever keeps a slot from being dispatched before its turn. -/
inductive Detained (s : Machine D) (x : Nat) (front rest : List (Work D)) : Prop
  | blocked (h : s.Blocked x front rest)
  | shielded {d : Nat} (h : s.Shielded x d front)

theorem Detained.carry (hx : s.Detained x (w :: l) rest) (h : s.Carries w l rest items t)
    (hw : (Act.item w).cancelsAll = false) : t.Detained x (items ++ l) rest := by
  cases hx with
  | blocked hb => exact .blocked (hb.carry h)
  | shielded hs =>
      obtain ht | hs := hs.carry h hw
      · exact .blocked (.tripped ht)
      · exact .shielded hs

theorem Detained.tripped_of_dispatch (hx : s.Detained x (w :: l) rest)
    (h : s.Carries w l rest items t) (hw : w = .dispatch x) :
    s.At x (·.request.tripped = true) := by
  cases hx with
  | blocked hb => exact hb.tripped_of_dispatch h.valid h.work hw
  | shielded hs => exact absurd hw (h.not_dispatch hs.awaits (hs.occupied h.valid))

/-! ### The call -/

/-- Whom a write that is submitted now supersedes: a read that is outstanding, or the write before
it, if that is. -/
structure Victim (s : Machine D) (x : Nat) : Prop where
  occupied : s.vacated x = false
  place : s.Accepted .read x ∨ s.LastWriteBefore s.entries.length x

/-- Nobody cancels all that is outstanding while a write is being submitted. -/
def Unswept (s : Machine D) (body : Body D) : Prop := ∀ {u : Machine D} {w : Work D},
  (s.submit .write body []).Amid u → u.work.head? = some w → (Act.item w).cancelsAll = false

/-- It can be checked step by step that nobody does. -/
theorem Unswept.of_steps {n : Nat} (hn : ((s.submit .write body []).steps n).work = [])
    (h : ∀ k < n, ((s.submit .write body []).steps k).work.head?.all
      (fun w => !(Act.item w).cancelsAll) = true) : s.Unswept body := by
  rintro u w ⟨k, rfl⟩ hw
  have hlt : k < n := by
    rw [← Nat.not_le]
    intro hk
    rw [steps_of_le hn hk, hn] at hw
    cases hw
  simpa [hw] using h k hlt

theorem Victim.accepted (hx : s.Victim x) : ∃ kind, s.Accepted kind x := by
  obtain hread | hlast := hx.place
  · exact ⟨_, hread⟩
  · exact ⟨_, hlast.write⟩

/-- At rest, a queued write waits for a read that was dispatched and occupies its slot. -/
theorem Valid.standing_of_write (h : s.Valid) (hw : s.work = []) (hd : s.Accepted .write d)
    (hq : s.At d (·.stage = .queued)) : ∃ r, s.Awaits d r ∧ s.Standing r [] := by
  have hduties : s.duties = [] := by rw [duties, hw, List.filter_nil]
  obtain ⟨r, har, hv⟩ := h.gated.exists_awaits hduties hq
  refine ⟨r, har, hv, ?_, List.forall_mem_nil _⟩
  obtain ⟨_, hr, hlt⟩ | ⟨hread, _⟩ := har
  · refine (h.prepared hd hr hlt).resolve_right ?_
    rintro ⟨_, _, _, hsub⟩
    simp [hw] at hsub
  · cases hd.kind_unique hread

/-- The write is admitted, and is the last. -/
theorem accepted_submit_write (hc : s.admission.closed = false) (body : Body D) :
    (s.submit .write body []).Accepted .write s.entries.length := by
  refine .of_append (entries_submit .write body [] s) ?_
  simp [newcomer, hc, Entry.queued]

section

variable (hw : s.work = [])

include hw

theorem step_submit (kind : Kind) (body : Body D) : Step s (s.submit kind body []) :=
  .move (.submit kind body) hw

theorem run_submitNow (kind : Kind) (body : Body D) : Run s (s.submitNow kind body) :=
  run_apply (.submit kind body) hw

theorem Valid.submit (h : s.Valid) (kind : Kind) (body : Body D) :
    (s.submit kind body []).Valid :=
  Run.valid (.single (step_submit hw kind body)) h

/-- What a write does first: it cancels the reads, then the write before it. -/
theorem work_submit_write (hc : s.admission.closed = false) (body : Body D) :
    (s.submit .write body []).work =
      (s.admission.prune s.vacated).reads.map (Work.supersede · s.entries.length) ++
        ((s.admission.prune s.vacated).currentWrite.toList.map
            (Work.supersede · s.entries.length) ++
          [.chain s.entries.length (s.admission.prune s.vacated).reads,
            .handOver s.entries.length]) := by
  simp [submit, hc, hw, Admission.admitWrite, Admission.nextSeq, Admission.prune]

theorem vacates?_submit_write (body : Body D) :
    ∀ v ∈ (s.submit .write body []).work, v.vacates? = none := by
  cases hc : s.admission.closed with
  | true => simp [submit, hc, hw, Work.vacates?]
  | false =>
      rw [work_submit_write hw hc]
      simp only [List.mem_append, List.mem_map, List.mem_cons, List.not_mem_nil, or_false]
      rintro v (⟨_, _, rfl⟩ | ⟨_, _, rfl⟩ | rfl | rfl) <;> rfl

end

/-- Requests that are there stay as they are when another is submitted. -/
theorem At.submit {p : Entry D → Prop} (hx : s.At x p) (kind : Kind) (body : Body D) :
    (s.submit kind body []).At x p := by
  obtain ⟨e, he, hp⟩ := hx
  exact ⟨e, entries_submit kind body [] s ▸ getElem?_append_of_some he, hp⟩

theorem Standing.submit (hd : s.Standing d []) (hw : s.work = []) (body : Body D) :
    (s.submit .write body []).Standing d (s.submit .write body []).work := by
  obtain ⟨e, he, hq⟩ := hd.left
  have hv : e.isVacated = false := by simpa only [vacated, he] using hd.occupied
  refine ⟨?_, hd.left.submit .write body, fun v hv => ?_⟩
  · obtain ⟨f, hf, hv⟩ := At.submit (p := (·.isVacated = false)) ⟨e, he, hv⟩ .write body
    rwa [vacated, hf]
  · simp [vacates?_submit_write hw body v hv]

theorem awaits_submit (ha : s.Awaits x d) (h : s.Valid) (hw : s.work = []) (kind : Kind)
    (body : Body D) : (s.submit kind body []).Awaits x d :=
  (awaits_iff (Run.grows (.single (step_submit hw kind body)) h)
    (ha.accepted_left.elim fun _ => Accepted.lt)).mpr ha

/-- What blocks a slot at rest does so when a write is submitted. -/
theorem Blocked.submit (hb : s.Blocked x [] []) (h : s.Valid) (hw : s.work = []) (body : Body D) :
    (s.submit .write body []).Blocked x (s.submit .write body []).work [] := by
  cases hb with
  | tripped ht => exact .tripped (ht.submit .write body)
  | launch hv | gate hv => cases hv
  | standing ha hd => exact .standing (awaits_submit ha h hw .write body) (hd.submit hw body)

section

variable (hx : s.Victim x) (h : s.Valid) (hw : s.work = []) (hc : s.admission.closed = false)

include hx h hw hc

/-- The turn of every victim comes. -/
theorem Victim.mem_work (body : Body D) :
    .supersede x s.entries.length ∈ (s.submit .write body []).work := by
  have keep : (!s.vacated x) = true := by simp [hx.occupied]
  rw [work_submit_write hw hc]
  obtain hread | hlast := hx.place
  · refine List.mem_append_left _ (List.mem_map.mpr ⟨x, ?_, rfl⟩)
    exact List.mem_filter.mpr ⟨h.recorded.mem_reads hc hread hx.occupied, keep⟩
  · refine List.mem_append_right _ (List.mem_append_left _ (List.mem_map.mpr ⟨x, ?_, rfl⟩))
    refine Option.mem_toList.mpr (Option.filter_eq_some_iff.mpr ⟨?_, keep⟩)
    exact h.recorded.current_eq hc hlast hx.occupied

/-- No victim is dispatched before its turn. -/
theorem Victim.detained (hq : s.At x (·.stage = .queued)) (body : Body D) :
    (s.submit .write body []).Detained x (s.submit .write body []).work [] := by
  by_cases hexp : s.Exposed x
  · -- A read that waits for a queued write: the turn of the read comes first.
    obtain ⟨hread, d, hlast, hqd⟩ := hexp
    have hread : s.Accepted .read x := by
      obtain ⟨e, he, hkind, _⟩ := hread
      exact ⟨e, he, hkind, by simp [hq.of_entry he]⟩
    obtain ⟨r, har, hr⟩ := h.standing_of_write hw hlast.write hqd
    refine .shielded (d := d) ⟨awaits_submit (.inr ⟨hread, hlast⟩) h hw .write body,
      hlast.write.submit .write body, hqd.submit .write body,
      ⟨r, awaits_submit har h hw .write body, hr.submit hw body⟩,
      ⟨_, accepted_submit_write hc body, hlast.write.lt⟩,
      _, _, _, work_submit_write hw hc body, List.mem_map.mpr ⟨x, ?_, rfl⟩, fun v hv => ?_⟩
    · exact List.mem_filter.mpr
        ⟨h.recorded.mem_reads hc hread hx.occupied, by simp [hx.occupied]⟩
    · obtain ⟨i, hi, rfl⟩ := List.mem_map.mp hv
      rintro rfl
      cases (h.recorded.read (List.mem_filter.mp hi).1).kind_unique hlast.write
  · have hrest : s.work = [] ++ [] := hw
    exact .blocked ((h.blocked hq hexp hrest (List.forall_mem_nil _)).submit h hw body)

omit hx hc in
/-- While the call goes on, the work that is done is no bulk cancellation. -/
theorem Unswept.drain {p : List (Work D) → Machine D → Prop} (ha : s.Unswept body)
    (hp : p (s.submit .write body []).work (s.submit .write body []))
    (hstep : ∀ {t u : Machine D} {w : Work D} {l items : List (Work D)},
      (Act.item w).cancelsAll = false → t.Carries w l [] items u → p (w :: l) t →
      p (items ++ l) u) :
    (s.submitNow .write body).Valid ∧ p [] (s.submitNow .write body) :=
  (h.submit hw .write body).drain_carries hp fun ham hc hp =>
    hstep (ha ham (by rw [hc.work]; rfl)) hc hp

/-- A victim that is queued vacates without having been dispatched. -/
theorem Victim.vacates (ha : s.Unswept body) (hq : s.At x (·.stage = .queued)) :
    (s.submitNow .write body).Valid ∧ (s.submitNow .write body).At x fun e =>
      e.stage = .vacated ∧ e.isVacated = true ∧ e.task = .unspawned ∧ e.callback = .dropped := by
  obtain ⟨hv, ho, _⟩ := ha.drain h hw
    (p := fun front t => t.Outgoing x front ∧ t.Detained x front [])
    ⟨.queued (hq.submit .write body) (hx.mem_work h hw hc body) rfl,
      hx.detained h hw hc hq body⟩
    fun hw hc ⟨ho, hd⟩ => ⟨ho.carry hc (hd.tripped_of_dispatch hc), hd.carry hc hw⟩
  exact ⟨hv, ho.of_nil hv⟩

omit h in
theorem Victim.doomed (hp : s.At x (·.request.status = .pending)) (body : Body D) :
    (s.submit .write body []).Doomed x (s.submit .write body []).work := by
  obtain ⟨e, he, hp⟩ := hp
  obtain ⟨kind, hacc⟩ := hx.accepted
  have hnone : e.request.cell.value? = none := by
    rw [Request.status_eq_pending_iff, Request.isSettled, ← Cell.isSome_value?] at hp
    simpa using hp
  refine ⟨At.submit ⟨e, he, (hacc.of_entry he).2, .inl hnone⟩ .write body, fun o ho => ?_⟩
  rw [work_submit_write hw hc] at ho
  simp at ho

/-- Whoever was pending when a write supersedes it has been cancelled when the call is over. -/
theorem Victim.cancelled (hp : s.At x (·.request.status = .pending)) :
    (s.submitNow .write body).At x (·.request.status = .cancelled) := by
  have hv := h.submit hw .write body
  obtain ⟨hvt, hdoomed⟩ := hv.drain_carries (p := fun front t => t.Doomed x front)
    (hx.doomed hw hc hp body) fun _ hc hp => hp.carry hc
  -- The write is there when the call is over, and whoever it supersedes has settled.
  obtain ⟨kind, hacc⟩ := hx.accepted
  have hnew := (accepted_submit_write hc body).grow (Run.grows (run_drain _) hv)
  have hset := hvt.settled_of_write (work_drain _)
    (hacc.grow ((run_submitNow hw .write body).grows h)) hnew hacc.lt
  obtain ⟨f, hf, _, hvalue⟩ := hdoomed.outcome
  refine ⟨f, hf, Request.status_of_value? (hvalue.resolve_left fun hn => ?_)⟩
  have hset := hset.of_entry hf
  simp [Request.isSettled, ← Cell.isSome_value?, hn] at hset

end

/-! ### What comes of it -/

/-- The callback of a slot that has a task is invoked exactly once, unless jobs of its kind are
barred before. -/
structure Invoked (bound : Option Nat) (s : Machine D) (x : Nat) (kind : Kind) : Prop where
  once : ∀ {u : Machine D}, Run s u → u.starts.count x ≤ 1
  /-- By the time that the slot vacates the callback was invoked. -/
  invoked : ∀ {u : Machine D}, Run s u → u.vacated x = true →
    u.starts.count x = 1 ∨ Slot.Denies u kind
  /-- As long as the slot does not vacate its callback is under way, or its task is about to be
  polled, or waits for a permit while as many reads as may hold one. -/
  awaited : ∀ {u : Machine D}, Run s u → u.work = [] → u.vacated x = false → u.live = true ∧
    ((u.At x fun e => e.callback.isUnderway = true) ∨ x ∈ u.ready.tasks ∨
      u.InQueue x ∧ kind = .read ∧ bound = some u.holders)
  /-- The slot vacates when all tasks are polled and all callbacks return. No manager is made with a
  bound of zero. -/
  vacates : ∀ {u : Machine D}, Run s u → u.Quiescent → bound ≠ some 0 → u.vacated x = true

/-- Whoever has a task has its callback invoked. -/
theorem Reachable.invoked (h : Reachable (Permits.ofBound bound) s) (he : s.entries[x]? = some e)
    (hr : e.stage ≠ .refused) (ht : e.task ≠ .unspawned) : s.Invoked bound x e.kind := by
  have later {u : Machine D} (hu : Run s u) : Charted bound u ∧
      ∃ f, u.entries[x]? = some f ∧ f.kind = e.kind ∧ f.task ≠ .unspawned := by
    have hreach : Reachable (Permits.ofBound bound) u := h.trans hu
    obtain ⟨f, hf, hef⟩ := (hu.grows h.valid).entry he
    exact ⟨hreach.charted, f, hf, hef.kind, hef.spawned ht⟩
  constructor
  case once =>
    intro u hu
    rw [(hu.valid h.valid).sound.starts]
    split <;> decide
  case invoked =>
    intro u hu hv
    obtain ⟨hcharted, f, hf, hkind, htask⟩ := later hu
    rw [vacated, hf] at hv
    cases hl : u.live with
    | false => exact .inr (.inl hl)
    | true =>
        refine (hcharted.over hf htask hv hl).imp (fun hspent => ?_) fun hb => .inr (hkind ▸ hb)
        rw [(hu.valid h.valid).sound.starts, hasBegun, hf]
        simp [hspent, Callback.hasBegun]
  case awaited =>
    intro u hu hw hv
    obtain ⟨hcharted, f, hf, hkind, htask⟩ := later hu
    rw [vacated, hf] at hv
    obtain ⟨hl, hawaits⟩ := hcharted.awaited hf hw (hcharted.dispatched hf htask hv)
    exact ⟨hl, hawaits.imp (fun hu => ⟨f, hf, hu⟩) (.imp_right fun hq => hkind ▸ hq)⟩
  case vacates =>
    intro u hu hq hb
    have hreach : Reachable (Permits.ofBound bound) u := h.trans hu
    have hacc : s.Accepted e.kind x := ⟨e, he, rfl, hr⟩
    exact hq.vacated hreach.valid hreach.awake hreach.metered hb (hacc.grow (hu.grows h.valid))

/-- A slot that was dispatched outlasts the submission of a write. -/
theorem Victim.outlasts (hx : s.Victim x) (h : Reachable (Permits.ofBound bound) s)
    (hw : s.work = []) (hd : s.At x (·.stage = .dispatched)) (body : Body D) :
    (s.submitNow .write body).At x fun e => e.stage = .dispatched ∧ e.isVacated = false := by
  obtain ⟨e, he, hd⟩ := hd
  have hs := h.valid
  have hrun := run_submitNow hw .write body
  have ht : Reachable (Permits.ofBound bound) (s.submitNow .write body) := h.trans hrun
  have hstands : s.Standing x [] := ⟨hx.occupied, ⟨e, he, by simp [hd]⟩, List.forall_mem_nil _⟩
  have hstands : (s.submitNow .write body).Standing x [] :=
    ((hs.submit hw .write body).drain_carries (p := fun front t => t.Standing x front)
      (hstands.submit hw body) fun _ hc hp => hp.carry hc).2
  obtain ⟨f, hf, hef⟩ := (hrun.grows hs).entry he
  have hv : f.isVacated = false := by simpa only [vacated, hf] using hstands.occupied
  have htask := hef.spawned ((hs.sound.entry he).coherent.dispatched hd).1
  exact ⟨f, hf, ht.charted.dispatched hf htask hv, hv⟩

/-- What becomes of those whom a write supersedes, when nothing cancels all that is outstanding
meanwhile. Whoever is queued vacates without having been dispatched, and its callback is never
invoked. Whoever was dispatched stays so, and its callback is invoked once. All of them are
cancelled that have not settled before. -/
theorem victims_superseded (h : Reachable (Permits.ofBound bound) s) (hw : s.work = [])
    (ha : s.Unswept body) (hx : s.Victim x) (he : s.entries[x]? = some e) :
    (e.stage = .queued →
      ((s.submitNow .write body).At x fun f => f.stage = .vacated ∧ f.isVacated = true ∧
        f.task = .unspawned ∧ f.callback = .dropped) ∧
      ∀ {u : Machine D} {b : Bool}, Run (s.submitNow .write body) u → .start x b ∉ u.events) ∧
    (e.stage = .dispatched →
      ((s.submitNow .write body).At x fun f => f.stage = .dispatched ∧ f.isVacated = false) ∧
      (s.submitNow .write body).Invoked bound x e.kind) ∧
    (s.submitNow .write body).At x fun f =>
      (e.request.status = .pending → f.request.status = .cancelled) ∧
      ∀ o, e.request.cell.value? = some o → f.request.cell.value? = some o := by
  have hs := h.valid
  have hrun := run_submitNow hw .write body
  have ht : Reachable (Permits.ofBound bound) (s.submitNow .write body) := h.trans hrun
  obtain ⟨f, hf, hef⟩ := (hrun.grows hs).entry he
  obtain ⟨kind, hacc⟩ := hx.accepted
  refine ⟨fun hq => ?_, fun hd => ?_, f, hf, fun hp => ?_, hef.value⟩
  · cases hc : s.admission.closed with
    | true =>
        -- Nobody is queued once admission is closed and all work is done.
        have := hs.closing hc ⟨e, he, hq⟩
        simp [hw] at this
    | false =>
        obtain ⟨_, hend⟩ := hx.vacates hs hw hc ha ⟨e, he, hq⟩
        exact ⟨hend, fun hu => hu.not_start ht.valid (hend.imp fun _ he => he.2.2.2)⟩
  · have hend := hx.outlasts h hw ⟨e, he, hd⟩ body
    have htask := hef.spawned ((hs.sound.entry he).coherent.dispatched hd).1
    refine ⟨hend, hef.kind ▸ ht.invoked hf (fun hr => ?_) htask⟩
    cases hd.symm.trans (hef.refused.mp hr)
  · cases hc : s.admission.closed with
    | true =>
        -- Whoever was admitted has settled once admission is closed and all work is done.
        have := (h.sealed.settled hs.sound hc hw hacc).of_entry he
        simp [hp, Status.isTerminal] at this
    | false => exact (hx.cancelled hs hw hc ⟨e, he, hp⟩).of_entry hf

/-- A read that holds the only permit, a read that was dispatched and waits for it, a write that
waits for both, and a read that waits for the write and on whose settlement another write is
submitted. -/
def jammed : Machine Unit :=
  (start (Permits.ofBound (some 1))).play 16 [.submit .read { mode := .hold }, .poll 0, .advance 0,
    .submit .read {}, .poll 1, .submit .write {}, .submit .read {},
    .onSettled 3 () [.submit .write .straight [] [] .nothing]]

theorem victims_superseded_jammed : jammed.work = [] ∧ jammed.Unswept {} ∧
    jammed.Victim 1 ∧ jammed.Victim 2 ∧ jammed.Victim 3 ∧
    ((jammed.submitNow .write {}).At 1 fun f => f.stage = .dispatched ∧ f.isVacated = false) ∧
    (jammed.submitNow .write {}).Invoked (some 1) 1 .read ∧
    ((jammed.submitNow .write {}).At 2 fun f => f.stage = .vacated ∧ f.isVacated = true ∧
      f.task = .unspawned ∧ f.callback = .dropped) ∧
    ((jammed.submitNow .write {}).At 3 fun f => f.stage = .vacated ∧ f.isVacated = true ∧
      f.task = .unspawned ∧ f.callback = .dropped) ∧
    (jammed.submitNow .write {}).At 3 (·.request.status = .cancelled) := by
  have hreach : Reachable (Permits.ofBound (some 1)) jammed := run_play 16 _ _
  have hrest : jammed.work = [] := rfl
  have hcall : jammed.Unswept {} := Unswept.of_steps (n := 50) rfl (by decide)
  have hline : jammed.Victim 1 := ⟨rfl, .inl ⟨_, rfl, rfl, by decide⟩⟩
  have hread : jammed.Victim 3 := ⟨rfl, .inl ⟨_, rfl, rfl, by decide⟩⟩
  have hwrite : jammed.Victim 2 := by
    refine ⟨rfl, .inr ⟨⟨_, rfl, rfl, by decide⟩, by decide, fun {v} hlt hv hacc => ?_⟩⟩
    obtain ⟨e, he, hk, _⟩ := hacc
    have hv : v < 4 := hv
    obtain rfl : v = 3 := by omega
    have : some Kind.read = some e.kind := congrArg (Option.map Entry.kind) he
    simp [hk] at this
  obtain ⟨_, hone, _⟩ := victims_superseded hreach hrest hcall hline rfl
  obtain ⟨htwo, _⟩ := victims_superseded hreach hrest hcall hwrite rfl
  obtain ⟨hthree, _, hcancelled⟩ := victims_superseded hreach hrest hcall hread rfl
  exact ⟨hrest, hcall, hline, hwrite, hread, (hone rfl).1, (hone rfl).2, (htwo rfl).1,
    (hthree rfl).1, hcancelled.imp fun _ hf => hf.1 rfl⟩

end Machine

end RequestScheduler
