import RequestScheduler.Proofs.Awake
import RequestScheduler.Proofs.Flag

/-!
# Who leaves the queue

A request leaves the queue when nothing holds it back any more, or when its slot is cancelled: for a
later write, with all that is outstanding, or at a shutdown (`Withdrawn`). Its consumer reaches the
request and not the slot. So a request that its consumer has cancelled has settled at once, but
stays in the queue as long as it would have waited (`queued_unless_withdrawn`), and whoever waits
for its slot waits with it.
-/

namespace RequestScheduler

/-- A slot is vacated by being skipped, or by the work that follows the end of its task. -/
theorem Entry.Edit.skipped {D : Type} {a : Machine.Act D} {n : Int64} {p : Option Permits} {i : Nat}
    {e f : Entry D} (h : e.Edit a n p i f) (hf : f.stage = .vacated) (ht : f.task = .unspawned) :
    e.stage = .vacated ∧ e.task = .unspawned ∨ a = .item (.skip i) ∨ a = .item (.dispatch i) ∨
      a = .item (.vacate i) := by
  cases h with
  | skip ha => exact .inr (ha.imp_right .inl)
  | vacate ha => exact .inr (.inr (.inr ha))
  | dispatch => cases hf
  | endTask | hand | start | enqueue | stop => cases ht
  | _ => exact .inl ⟨hf, ht⟩

namespace Machine

variable {D : Type} {s t u : Machine D} {i d x : Nat} {e f : Entry D} {w : Work D} {a : Act D}
  {l after : List (Work D)} {kind : Kind} {permits : Option Permits} {bound : Option Nat}
  {past later before : List (Machine D × Act D)}

/-- The request whose slot an act cancels. -/
def Act.withdraws? : Act D → Option Nat
  | .item (.cancelSlot i) | .item (.supersede i _) | .item (.cancelEach (i :: _) _ _) => some i
  | _ => none

/-- The slot of the request was cancelled. -/
def Withdrawn (past : List (Machine D × Act D)) (x : Nat) : Prop :=
  ∃ u a, (u, a) ∈ past ∧ a.withdraws? = some x

theorem Withdrawn.cons (h : Withdrawn past x) (s : Machine D) (a : Act D) :
    Withdrawn ((s, a) :: past) x := by
  obtain ⟨u, b, hmem, hb⟩ := h
  exact ⟨u, b, List.mem_cons_of_mem _ hmem, hb⟩

/-- Whose slot was cancelled by then was cancelled before, or by the last act. -/
theorem withdrawn_cons :
    Withdrawn ((s, a) :: past) x ↔ a.withdraws? = some x ∨ Withdrawn past x := by
  constructor
  · rintro ⟨u, b, hmem, hb⟩
    obtain heq | hmem := List.mem_cons.mp hmem
    · obtain ⟨rfl, rfl⟩ := Prod.mk.inj heq
      exact .inl hb
    · exact .inr ⟨u, b, hmem, hb⟩
  · rintro (ha | h)
    · exact ⟨s, a, List.mem_cons_self, ha⟩
    · exact h.cons s a

/-- No slot is to be skipped that was not to be skipped before. -/
def Spares (x : Nat) (s t : Machine D) : Prop := Work.skip x ∈ t.work → Work.skip x ∈ s.work

theorem Spares.of_work (ht : t.work = l ++ s.work) (hl : .skip x ∉ l) : Spares x s t := by
  intro h
  rw [ht, List.mem_append] at h
  exact h.resolve_left hl

theorem Spares.same (ht : t.work = s.work) : Spares x s t :=
  .of_work (l := []) ht List.not_mem_nil

theorem spares_cancelThen (ha : .skip x ∉ after) (i : Nat) (s : Machine D) :
    Spares x s (s.cancelThen i after) :=
  .of_work (work_cancelThen i after s) (by simpa using ha)

theorem spares_submit (ha : .skip x ∉ after) (kind : Kind) (body : Body D) (s : Machine D) :
    Spares x s (s.submit kind body after) := by
  unfold submit
  dsimp only
  split
  · exact .of_work (l := .settle _ _ :: .handOver _ :: after) rfl (by simpa using ha)
  · cases kind with
    | read =>
        dsimp only
        split
        · exact .of_work (l := .dispatch _ :: .note _ :: .handOver _ :: after) rfl
            (by simpa using ha)
        · exact .of_work (l := .chain _ _ :: .handOver _ :: after) rfl (by simpa using ha)
    | write => exact .of_work rfl (by simpa using ha)

theorem spares_onSettled {tag : D} {effects : List (Effect D)} (ha : .skip x ∉ after) (i : Nat)
    (s : Machine D) : Spares x s (s.onSettled i tag effects after) := by
  unfold onSettled
  split
  · exact .of_work rfl ha
  · split
    · exact .of_work (l := .run (.react tag effects) :: after) rfl (by simpa using ha)
    · exact .of_work (l := after) rfl ha

theorem spares_skip (i : Nat) (s : Machine D) : Spares x s (s.skip i) := by
  unfold skip
  split
  · exact .same rfl
  · split
    · exact .of_work (l := [.openVacancy i]) rfl (by simp)
    · exact .same rfl

theorem spares_openVacancy (ha : .skip x ∉ after) (ht : t.work = s.work) :
    Spares x s (t.openVacancy i after) := by
  unfold openVacancy
  split
  · exact .same ht
  · rename_i e _
    split
    · exact .same ht
    · exact .of_work (l := e.vacancy.continuations.map .run ++ after) (by simp [ht])
        (by simpa using ha)

theorem spares_endTask (i : Nat) (s : Machine D) : Spares x s (s.endTask i) := by
  unfold endTask
  split
  · exact .same rfl
  · refine .of_work (l := [.settle i (.error .cancelled), .vacate i]) ?_ (by simp)
    dsimp only
    split
    · simp [push, (touches_putPermit _).2, put]
    · simp [push, (touches_putPermit _).2, put]
    · rfl
    · rfl

theorem spares_closeOut (i : Nat) (s : Machine D) : Spares x s (s.closeOut i) := by
  unfold closeOut
  split
  · exact .same rfl
  · refine .of_work (l := [.settle i (.error .cancelled), .endTask i]) ?_ (by simp)
    dsimp only
    split
    · simp [(touches_putPermit _).2, put]
    · simp [put]

/-- What a client's code does leaves no slot to be skipped. -/
theorem spares_perform (c : Effect D) (s : Machine D) : Spares x s (s.perform c) := by
  cases c with
  | set | add | mul | log | status | snapshot => exact .same rfl
  | submit => exact spares_submit (by simp) _ _ s
  | cancel i =>
      unfold perform
      dsimp only
      split
      · exact .same rfl
      · exact spares_cancelThen (by simp) i s
  | cancelAll => exact .of_work (l := [_, _]) rfl (by simp)
  | onSettled i =>
      unfold perform
      dsimp only
      split
      · exact .same rfl
      · exact spares_onSettled (by simp) i s

/-- Only work that cancels a slot leaves it to be skipped. -/
theorem exec_spares (hw : (Act.item w).withdraws? ≠ some x) (s : Machine D) :
    Spares x s (exec w s) := by
  cases w with
  | perform c => exact spares_perform c s
  | emit | note | reportTally => exact .same rfl
  | run k =>
      cases k with
      | release g => exact .of_work (l := [.release g]) rfl (by simp)
      | react tag effects => exact .of_work (l := effects.map .perform) rfl (by simp)
      | announce => exact .same rfl
  | settle i o =>
      simp only [exec, settle]
      split
      · exact .same rfl
      · rename_i e _
        split
        · exact .same rfl
        · exact .of_work (l := e.request.cell.continuations.map .run) rfl (by simp)
  | cancelSlot i =>
      have hi : x ≠ i := fun hi => hw (hi ▸ rfl)
      exact spares_cancelThen (by simpa using hi) i s
  | supersede i y =>
      have hi : x ≠ i := fun hi => hw (hi ▸ rfl)
      simp only [exec, supersede]
      split
      · refine spares_cancelThen ?_ i s
        split <;> simp [hi]
      · exact .same rfl
  | cancelEach ids total count =>
      cases ids with
      | nil => exact .same rfl
      | cons i ids =>
          have hi : x ≠ i := fun hi => hw (hi ▸ rfl)
          exact spares_cancelThen (by simpa using hi) i s
  | skip i => exact spares_skip i s
  | openVacancy i => exact spares_openVacancy List.not_mem_nil rfl
  | vacate i =>
      simp only [exec, vacate]
      split
      · exact .same rfl
      · exact spares_openVacancy (by simp) rfl
  | dispatch i =>
      simp only [exec, dispatch]
      split
      · exact .same rfl
      · split
        · split
          · exact spares_skip i s
          · split
            · exact .same rfl
            · exact .of_work (l := [.endTask i]) rfl (by simp)
        · exact .same rfl
  | chain y ds =>
      exact .of_work (l := ds.map (Work.await s.gates.length) ++ [.release s.gates.length])
        (by simp [exec, chain]) (by simp)
  | await g d =>
      simp only [exec, await]
      split
      · exact .same rfl
      · split
        · exact .of_work (l := [.release g]) rfl (by simp)
        · exact .same rfl
  | release g =>
      simp only [exec, release]
      split
      · exact .same rfl
      · rename_i gate _
        by_cases hg : gate.remaining = 1
        · exact .of_work (l := [.dispatch gate.slot]) (by simp [hg]) (by simp)
        · exact .same (by simp [hg])
  | endTask i => exact spares_endTask i s
  | handOver | park =>
      simp only [exec, handOver, park]
      split
      · exact .same rfl
      · exact .same rfl
  | finish =>
      simp only [exec, finish]
      split
      · exact .same rfl
      · split
        · exact .same rfl
        · exact .same rfl

theorem spares_poll (hc : s.Coherent) (i : Nat) : Spares x s (s.poll i) := by
  cases he : s.entries[i]? with
  | none =>
      simp only [poll, he]
      exact .same rfl
  | some e =>
  have h := polled (hc he) he
  generalize s.poll i = t at h ⊢
  cases h with
  | idle | enqueue | take | start => exact .same rfl
  | closed => exact spares_closeOut i s
  | @hear o =>
      exact .of_work (l := panicNote e.kind o ++ [.settle i o, .endTask i])
        (by simp [push, put]) (by simp [panicNote])

/-- No move leaves a slot to be skipped. -/
theorem begin_spares (hc : s.Coherent) (m : Move D) : Spares x s (m.begin s) := by
  cases m with
  | submit => exact spares_submit List.not_mem_nil _ _ s
  | cancel i =>
      simp only [Move.begin]
      split
      · exact spares_cancelThen List.not_mem_nil i s
      · exact .same rfl
  | cancelAll => exact .of_work (l := [_]) rfl (by simp)
  | snapshot | report | pause => exact .same rfl
  | onSettled i => exact spares_onSettled List.not_mem_nil i s
  | effects es => exact .of_work (l := es.map .perform) rfl (by simp)
  | shutdown => exact .of_work (work_closeDown s) (by simp)
  | trip i =>
      simp only [Move.begin]
      split
      · exact .same (work_trip i s)
      · exact .same rfl
  | awaitRequest | takeOutcome | dropFuture => exact .same (work_modify ..)
  | release => exact .same (work_releaseJob ..)
  | poll i =>
      simp only [Move.begin]
      split
      · exact .same rfl
      · rename_i rest _
        have hspares := spares_poll (x := x) (s := { s with ready := rest }) hc i
        exact fun hx => hspares hx
  | advance i =>
      simp only [Move.begin, advance]
      split
      · exact .same rfl
      · rename_i e _
        split
        · rename_i body _
          cases hm : body.mode with
          | straight => exact .of_work rfl (by simp)
          | hold | cooperative => exact .of_work rfl (by simp)
        · rename_i body _
          exact .of_work (l := body.post.map .perform ++ [.finish i body.result]) rfl (by simp)
        · exact .same rfl
  | lose tasks =>
      simp only [Move.begin]
      split
      · exact .of_work (l := tasks.map .endTask) rfl (by simp)
      · exact .same rfl

/-- A slot that is to be skipped was so before, or the act cancels it. -/
theorem Act.Enabled.skip_mem (ha : a.Enabled s) (hc : s.Coherent)
    (hx : .skip x ∈ (a.apply s).work) : .skip x ∈ s.work ∨ a.withdraws? = some x := by
  by_cases hw : a.withdraws? = some x
  · exact .inr hw
  left
  cases a with
  | item w =>
      have hmem := exec_spares hw { s with work := s.work.tail } hx
      exact List.mem_of_mem_tail hmem
  | move m => exact begin_spares hc m hx

/-- Work that waits stays until it is carried out. -/
theorem Act.Enabled.mem_work (ha : a.Enabled s) (hs : s.Sound) (hw : w ∈ s.work) :
    a = .item w ∨ w ∈ (a.apply s).work := by
  obtain ⟨items, ht, _⟩ := Act.issues ha hs
  rw [ht, List.mem_append]
  cases a with
  | item v =>
      obtain ⟨rest, hv⟩ := Act.enabled_item.mp ha
      rw [hv] at hw ⊢
      exact (List.mem_cons.mp hw).imp (congrArg Act.item ·.symm) .inr
  | move m => simp [show s.work = [] from ha] at hw

/-- An act that cancels a slot sets the flag of its request and leaves the slot to be skipped. -/
theorem Act.Enabled.withdraws (ha : a.Enabled s) (hs : s.Sound) (hx : a.withdraws? = some x) :
    (a.apply s).At x (·.request.tripped = true) ∧ .skip x ∈ (a.apply s).work := by
  -- The request is there, since it was admitted.
  have cancel {e : Entry D} {after r : List (Work D)} (he : s.entries[x]? = some e)
      (hr : .skip x ∈ after) : (Machine.cancelThen x after { s with work := r }).At x
        (·.request.tripped = true) ∧
      .skip x ∈ (Machine.cancelThen x after { s with work := r }).work := by
    refine ⟨at_cancelThen (s := { s with work := r }) he after, ?_⟩
    rw [work_cancelThen]
    exact List.mem_append_left _ (List.mem_cons_of_mem _ hr)
  cases a with
  | move m => cases hx
  | item w =>
      have hsound : w.Sound s := hs.work ha.mem
      cases w with
      | cancelSlot i =>
          obtain rfl := Option.some.inj hx
          obtain ⟨e, he, _⟩ := hsound
          exact cancel he List.mem_cons_self
      | supersede i y =>
          obtain rfl := Option.some.inj hx
          obtain ⟨⟨e, he, _⟩, f, hf, _⟩ := hsound
          simp only [Act.apply, exec, supersede, he, hf]
          exact cancel he List.mem_cons_self
      | cancelEach ids total count =>
          cases ids with
          | nil => cases hx
          | cons i ids =>
              obtain rfl := Option.some.inj hx
              obtain ⟨e, he, _⟩ := hsound i List.mem_cons_self
              exact cancel he List.mem_cons_self
      | _ => cases hx

/-- A slot that is skipped has left the queue. -/
theorem not_queued_skip (he : (Act.apply (.item (.skip x)) s).entries[x]? = some f) :
    f.stage ≠ .queued := by
  simp only [Act.apply, exec, skip] at he
  split at he
  · rename_i hn
    cases hn.symm.trans he
  · rename_i e hx
    split at he
    · rw [push, note, put] at he
      rw [getElem?_set_of_some hx] at he
      obtain rfl := Option.some.inj he
      simp
    · rename_i hq
      obtain rfl := Option.some.inj (hx.symm.trans he)
      exact hq

/-- What the cancellation of slots has to do with who is in the queue. -/
structure Departed (past : List (Machine D × Act D)) (s : Machine D) : Prop where
  skip : ∀ {x : Nat}, .skip x ∈ s.work → Withdrawn past x
  /-- A slot that was cancelled has left the queue, or is about to. -/
  left : ∀ {x : Nat}, Withdrawn past x →
    s.At x fun e => e.request.tripped = true ∧ (e.stage = .queued → .skip x ∈ s.work)
  /-- Whoever has left the queue by itself had nothing to wait for any more. -/
  free : ∀ {x d : Nat}, (s.At x fun e => e.stage = .vacated ∧ e.task = .unspawned) →
    ¬Withdrawn past x → s.Awaits x d → s.vacated d = true

theorem Departed.apply (h : Departed past s) (ha : a.Enabled s) (hs : s.Valid) :
    Departed ((s, a) :: past) (a.apply s) := by
  have hg : s.Grows (a.apply s) := Run.grows (.single ha.step) hs
  constructor
  · intro x hx
    obtain hold | hnew := ha.skip_mem hs.sound.isCoherent hx
    · exact (h.skip hold).cons s a
    · exact withdrawn_cons.mpr (.inl hnew)
  · intro x hx
    obtain hnew | hold := withdrawn_cons.mp hx
    · obtain ⟨⟨e, he, ht⟩, hmem⟩ := ha.withdraws hs.sound hnew
      exact ⟨e, he, ht, fun _ => hmem⟩
    · obtain ⟨e, he, ht, hq⟩ := h.left hold
      obtain ⟨f, hf, hef⟩ := hg.entry he
      refine ⟨f, hf, hef.tripped ht, fun hqueued => ?_⟩
      obtain rfl | hmem := ha.mem_work hs.sound (hq (hef.queued hqueued))
      · exact absurd hqueued (not_queued_skip hf)
      · exact hmem
  · rintro x d ⟨f, hf, hv, ht⟩ hn haw
    obtain ⟨e, he, hef⟩ | ⟨kind, body, _, _, rfl⟩ := Act.entry_cases hs.sound.isCoherent hf
    · have hpast : ¬Withdrawn past x := fun hp => hn (hp.cons s a)
      have hbefore := (awaits_iff hg (List.getElem?_eq_some_iff.mp he).1).mp haw
      obtain hold | rfl | rfl | rfl := hef.skipped hv ht
      · exact vacated_grow hg (h.free ⟨e, he, hold⟩ hpast hbefore)
      · exact absurd (h.skip ha.mem) hpast
      · have hduty : .dispatch x ∈ s.duties := List.mem_filter.mpr ⟨ha.mem, rfl⟩
        cases hd : s.vacated d with
        | true => exact vacated_grow hg hd
        | false => exact absurd (hs.gated.held hbefore hd) (hs.gated.not_held hduty)
      · obtain ⟨hend, _⟩ := (hs.sound.work ha.mem).1.of_entry he
        obtain ⟨g, hg, heg⟩ := hg.entry he
        obtain rfl := Option.some.inj (hf.symm.trans hg)
        cases ht.symm.trans (heg.ended hend)
    · exact absurd hv (newcomer_unspawned s kind body).2

theorem History.departed (h : History permits past s) : Departed past s := by
  induction h with
  | start =>
      constructor
      · simp [Machine.start]
      · rintro x ⟨u, a, hmem, _⟩
        cases hmem
      · rintro x d ⟨e, he, _⟩
        simp [Machine.start] at he
  | next h ha ih => exact ih.apply ha h.reachable.valid

/-- At rest, a slot that was cancelled has left the queue. -/
theorem Departed.not_queued (h : Departed past s) (hw : s.work = []) (hx : Withdrawn past x) :
    ¬s.At x (·.stage = .queued) := by
  rintro ⟨e, he, hq⟩
  obtain ⟨_, hskip⟩ := (h.left hx).of_entry he
  simpa [hw] using hskip hq

/-- At rest, a request that was accepted is queued exactly as long as it has to wait, unless its
slot was cancelled. -/
theorem Departed.queued_iff (h : Departed past s) (hs : s.Valid) (hw : s.work = [])
    (hx : s.Accepted kind x) : s.At x (·.stage = .queued) ↔
      (∃ d, s.Awaits x d ∧ s.vacated d = false) ∧ ¬Withdrawn past x := by
  have hd : s.duties = [] := by rw [duties, hw, List.filter_nil]
  constructor
  · intro hq
    exact ⟨hs.gated.exists_awaits hd hq, fun hn => h.not_queued hw hn hq⟩
  · rintro ⟨⟨d, haw, hv⟩, hn⟩
    obtain ⟨e, he, _, hr⟩ := hx
    have hc : e.Coherent := (hs.sound.entry he).coherent
    -- Whoever has a task has nothing to wait for.
    have hunspawned : e.task = .unspawned := by
      apply Decidable.byContradiction
      intro ht
      cases hv.symm.trans (hs.gated.clear ⟨e, he, ht⟩ haw)
    refine ⟨e, he, ?_⟩
    cases hstage : e.stage with
    | refused => exact absurd hstage hr
    | queued => exact hstage
    | dispatched => exact absurd hunspawned (hc.dispatched hstage).1
    | vacated => cases hv.symm.trans (h.free ⟨e, he, hstage, hunspawned⟩ hn haw)

/-- An act that cancels a slot lets no task and no callback go on. -/
theorem Act.not_busy_of_withdraws (hx : a.withdraws? = some x) : a.isBusy = false := by
  cases a with
  | move m => cases hx
  | item w =>
      cases w with
      | cancelSlot | supersede | cancelEach => rfl
      | _ => cases hx

/-- At rest, a slot that was queued when it was cancelled has vacated, and its callback was given
up. -/
theorem History.vacated_of_withdraws (h : History (Permits.ofBound bound) past s)
    (hw : s.work = []) (hpast : past = later ++ (u, a) :: before) (ha : a.withdraws? = some x)
    (hq : u.At x (·.stage = .queued)) :
    s.At x fun e => e.isVacated = true ∧ e.task = .unspawned ∧ e.callback = .dropped := by
  subst hpast
  obtain ⟨hu, hen, hrun⟩ := h.split
  obtain ⟨e, he, hq⟩ := hq
  have hvalid := hu.reachable.valid
  -- The cancellation itself leaves the slot where it is, with the flag set.
  obtain ⟨f, hf, hef⟩ := (Act.edits hvalid.sound.isCoherent a).entry he
  have hstation := hef.station (Act.not_busy_of_withdraws ha)
  obtain ⟨_, hstage, _, htask, _⟩ := Station.mk.inj hstation
  have hunspawned : f.task = .unspawned :=
    htask.trans ((hvalid.sound.entry he).coherent.queued hq).1
  have htrip := (hen.withdraws hvalid.sound ha).1.of_entry hf
  obtain ⟨g, hg, hfg⟩ := (Run.grows hrun (Run.valid (.single hen.step) hvalid)).entry hf
  have hend : g.task = .unspawned := hfg.skipped htrip hunspawned
  have hr : g.stage ≠ .refused := by simp [hfg.refused, hstage.trans hq]
  have hnq : g.stage ≠ .queued := by
    intro hgq
    refine h.departed.not_queued hw ⟨u, a, ?_, ha⟩ ⟨g, hg, hgq⟩
    exact List.mem_append_right _ List.mem_cons_self
  have hs := h.reachable.valid.sound
  have hv := h.reachable.awake.vacated_of_unqueued hs hw hg (.inl hend) hr hnq
  obtain ⟨_, _, hdrop⟩ | ⟨hended, _⟩ :=
    (hs.entry hg).coherent.vacated (hs.vacated_of_isVacated hg hv)
  · exact ⟨g, hg, hv, hend, hdrop⟩
  · cases hend.symm.trans hended

/-- The consumer of the request cancels it, from outside or in a client's code. -/
def Act.revokes? : Act D → Option Nat
  | .move (.cancel i) | .item (.perform (.cancel i)) => some i
  | _ => none

/-- At rest, whoever is queued although its cancellation was requested was cancelled by its
consumer. -/
theorem History.revoked (h : History (Permits.ofBound bound) past s) (hw : s.work = [])
    (hx : s.At x fun e => e.stage = .queued ∧ e.request.tripped = true) :
    ∃ later u a before, past = later ++ (u, a) :: before ∧ a.revokes? = some x ∧
      u.At x fun e => e.stage = .queued ∧ e.request.tripped = false := by
  obtain ⟨e, he, hq, ht⟩ := hx
  obtain ⟨later, u, a, before, rfl, ⟨b, hb, hbt⟩, hby⟩ := h.exists_tripped ⟨e, he, ht⟩
  obtain ⟨hu, hen, hrun⟩ := h.split
  have hvalid := hu.reachable.valid
  obtain ⟨f, hf, hbf⟩ := (Run.grows (.head hen.step hrun) hvalid).entry hb
  obtain rfl := Option.some.inj (he.symm.trans hf)
  have hbq : b.stage = .queued := hbf.queued hq
  refine ⟨later, u, a, before, rfl, ?_, b, hb, hbq, hbt⟩
  have spared (ha : a.withdraws? = some x) : False := by
    refine h.departed.not_queued hw ⟨u, a, ?_, ha⟩ ⟨e, he, hq⟩
    exact List.mem_append_right _ List.mem_cons_self
  cases hby with
  | consumer | client => rfl
  | holder hi =>
      obtain ⟨_, _, body, hheld⟩ := ((hvalid.sound.entry hb).coherent.queued hbq)
      have hbegun := (hasBegun_eq_true_iff.mp hi).of_entry hb
      simp [hheld, Callback.hasBegun] at hbegun
  | successor | shutdown | bulk => exact (spared rfl).elim

/-- At rest, a request is queued exactly as long as it has to wait, unless its slot was cancelled: a
slot that was queued when it was cancelled has vacated, and its callback was given up. Whoever is
queued although its cancellation was requested was cancelled by its consumer while it was queued,
and never gets a task. -/
theorem queued_unless_withdrawn (h : History (Permits.ofBound bound) past s) (hw : s.work = [])
    (hx : s.Accepted kind x) :
    (s.At x (·.stage = .queued) ↔
      (∃ d, s.Awaits x d ∧ s.vacated d = false) ∧ ¬Withdrawn past x) ∧
    (∀ later u a before, past = later ++ (u, a) :: before → a.withdraws? = some x →
      u.At x (·.stage = .queued) →
      s.At x fun e => e.isVacated = true ∧ e.task = .unspawned ∧ e.callback = .dropped) ∧
    ((s.At x fun e => e.stage = .queued ∧ e.request.tripped = true) →
      (∃ later u a before, past = later ++ (u, a) :: before ∧ a.revokes? = some x ∧
        u.At x fun e => e.stage = .queued ∧ e.request.tripped = false) ∧
      ∀ {t : Machine D}, Run s t → t.At x (·.task = .unspawned)) := by
  have hs := h.reachable.valid
  refine ⟨h.departed.queued_iff hs hw hx,
    fun later u a before hpast ha hq => h.vacated_of_withdraws hw hpast ha hq,
    fun hq => ⟨h.revoked hw hq, fun hrun => ?_⟩⟩
  obtain ⟨e, he, hq, ht⟩ := hq
  have hunspawned := ((hs.sound.entry he).coherent.queued hq).1
  obtain ⟨f, hf, hef⟩ := (Run.grows hrun hs).entry he
  exact ⟨f, hf, hef.skipped ht hunspawned⟩

/-- A read that performs, a write that waits for it and that its consumer has cancelled, and a read
that waits for the write. -/
def revoked : Machine Unit :=
  (start none).play 8 [.submit .read { mode := .hold }, .poll 0, .advance 0, .submit .write {},
    .submit .read {}, .cancel 1]

theorem queued_unless_withdrawn_revoked : ∃ past, History none past revoked ∧
    revoked.work = [] ∧ revoked.Accepted .write 1 ∧ ¬Withdrawn past 1 ∧
    ∃ later u a before, past = later ++ (u, a) :: before ∧ Act.revokes? a = some 1 := by
  have hreach : Reachable (Permits.ofBound none) revoked := run_play 8 _ (start none)
  obtain ⟨past, h⟩ := History.exists_of_reachable hreach
  have hrest : revoked.work = [] := rfl
  have hwrite : revoked.Accepted .write 1 := ⟨_, rfl, rfl, by decide⟩
  obtain ⟨hiff, _, hrevoked⟩ := queued_unless_withdrawn h hrest hwrite
  obtain ⟨⟨later, u, a, before, hpast, ha, _⟩, _⟩ := hrevoked ⟨_, rfl, rfl, rfl⟩
  exact ⟨past, h, hrest, hwrite, (hiff.mp ⟨_, rfl, rfl⟩).2, later, u, a, before, hpast, ha⟩

/-- The cancelled write settles at once, but keeps its slot and with it the read that waits. -/
theorem queued_though_cancelled : Reachable none revoked ∧ revoked.work = [] ∧
    (revoked.At 1 fun e => e.stage = .queued ∧ e.request.tripped = true ∧
      e.request.status = .cancelled) ∧
    revoked.LastWriteBefore 2 1 ∧
    revoked.At 2 fun e => e.kind = .read ∧ e.stage = .queued ∧ e.request.tripped = false := by
  refine ⟨run_play 8 _ _, rfl, ⟨_, rfl, rfl, rfl, rfl⟩, ⟨⟨_, rfl, rfl, by decide⟩, by decide, ?_⟩,
    ⟨_, rfl, rfl, rfl, rfl⟩⟩
  intro v hv hv2
  omega

end Machine

end RequestScheduler
