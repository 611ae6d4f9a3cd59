import RequestScheduler.Proofs.Ledger
import RequestScheduler.Proofs.Sealing

/-!
# What a shutdown reports

A shutdown waits for the slots that the record hands back when it is closed, and counts those that
are occupied when the wait is over. The call that closes admission is handed all of them, so it
counts every request that has not vacated (`Machine.report_of_shutdown`). The record lists nobody
any more then: a later call is handed nothing, and reports that all is over while callbacks still
run (`Machine.completed_beside_callback`).
-/

namespace RequestScheduler

namespace Machine

variable {D : Type} {s t : Machine D} {permits : Option Permits} {i : Nat}

/-- The requests that were admitted and have not vacated. -/
def occupants (s : Machine D) : List Nat :=
  (List.range s.entries.length).filter fun i =>
    s.entries[i]?.any fun e => e.stage != .refused && !e.isVacated

theorem mem_occupants : i ∈ s.occupants ↔ s.Outstanding i := by
  simp only [occupants, List.mem_filter, List.mem_range, Option.any_eq_true, Bool.and_eq_true,
    bne_iff_ne, Bool.not_eq_true']
  refine and_iff_right_of_imp ?_
  rintro ⟨e, he, _⟩
  exact (List.getElem?_eq_some_iff.mp he).1

theorem nodup_occupants (s : Machine D) : s.occupants.Nodup := List.nodup_range.filter _

/-- Whoever is outstanding was admitted as a read or as a write, and occupies its slot. -/
theorem outstanding_iff : s.Outstanding i ↔
    (s.Accepted .write i ∨ s.Accepted .read i) ∧ s.vacated i = false := by
  constructor
  · rintro ⟨e, he, hr, hv⟩
    refine ⟨?_, by simpa only [vacated, he] using hv⟩
    cases hk : e.kind with
    | read => exact .inr ⟨e, he, hk, hr⟩
    | write => exact .inl ⟨e, he, hk, hr⟩
  · rintro ⟨⟨e, he, _, hr⟩ | ⟨e, he, _, hr⟩, hv⟩
    all_goals
      simp only [vacated, he] at hv
      exact ⟨e, he, hr, hv⟩

/-- While admission is open the record hands back whoever is outstanding. -/
theorem Valid.mem_handed (h : s.Valid) (hc : s.admission.closed = false) :
    i ∈ s.beginShutdown.1 ↔ s.Outstanding i := by
  have hids : s.beginShutdown.1 = s.admission.writes.filter (!s.vacated ·) ++
      s.admission.reads.filter (!s.vacated ·) := rfl
  simp only [hids, List.mem_append, List.mem_filter, ← or_and_right, Bool.not_eq_true',
    outstanding_iff]
  refine and_congr_left fun hv => or_congr ?_ ?_
  · exact ⟨h.recorded.write, fun hi => h.recorded.mem_writes hc hi hv⟩
  · exact ⟨h.recorded.read, fun hi => h.recorded.mem_reads hc hi hv⟩

/-- A closed record hands nobody back. -/
theorem Valid.handed_nobody (h : s.Valid) (hc : s.admission.closed = true) :
    s.beginShutdown.1 = [] := by
  obtain ⟨hr, hw, _⟩ := h.recorded.closed hc
  simp [beginShutdown, Admission.close, Admission.prune, hr, hw]

/-- After admission was closed, whoever is outstanding was so when it was closed. -/
theorem outstanding_after_shutdown (h : Reachable permits s) (hw : s.work = [])
    (ht : Run s.beginShutdown.2 t) :
    t.Outstanding i ↔ s.Outstanding i ∧ t.vacated i = false := by
  have hclose : Step s s.closeDown := .move .shutdown hw
  have hrun : Run s.closeDown t := .trans (run_drain s.closeDown) ht
  have hg : s.Grows t := Run.grows (.head hclose hrun) h.valid
  have hrefusing : t.Refusing s.entries.length s.closeDown.admission :=
    hrun.refusing (Run.valid (.single hclose) h.valid) (refusing_closeDown s)
  have hold {kind : Kind} (ha : t.Accepted kind i) : s.Accepted kind i := by
    refine (accepted_iff hg (Nat.lt_of_not_le fun hle => ?_)).mp ha
    obtain ⟨e, he, _, hr⟩ := ha
    exact hr (hrefusing.refused hle he)
  rw [outstanding_iff, outstanding_iff]
  constructor
  · rintro ⟨ha, hv⟩
    exact ⟨⟨ha.imp hold hold, vacated_of_grow hg hv⟩, hv⟩
  · rintro ⟨⟨ha, _⟩, hv⟩
    exact ⟨ha.imp (·.grow hg) (·.grow hg), hv⟩

/-- On a live runtime no callback runs when all slots have vacated. -/
theorem Valid.not_running (h : s.Valid) (hl : s.live = true) (hn : s.occupants = []) {e : Entry D}
    (he : e ∈ s.entries) : e.callback.isRunning = false := by
  rw [← Bool.not_eq_true]
  intro hr
  obtain ⟨i, hi⟩ := List.getElem?_of_mem he
  have ha := h.accepted hi (Callback.hasBegun_of_isRunning hr)
  have hout : s.Outstanding i :=
    ⟨e, hi, (ha.of_entry hi).2, by simpa [vacated, hi] using h.not_vacated hl hi hr⟩
  simpa [hn] using mem_occupants.mpr hout

/-- The shutdown that closes admission reports how many slots are occupied when it returns, however
long it has waited, and so whether there is none; on a live runtime no callback runs then. A later
one reports that all is over whatever runs. -/
theorem report_of_shutdown (h : Reachable permits s) (hw : s.work = [])
    (ht : Run s.beginShutdown.2 t) (timeoutMs : UInt64) :
    let report := (t.finishShutdown s.beginShutdown.1 timeoutMs).1
    report.abandoned = (if s.admission.closed then 0 else t.occupants.length) ∧
    (report.completed = true ↔ s.admission.closed = true ∨ t.occupants = []) ∧
    (s.admission.closed = false → report.completed = true → t.live = true →
      ∀ e ∈ t.entries, e.callback.isRunning = false) := by
  intro report
  have hreach : Reachable permits t :=
    .trans h (.head (.move .shutdown hw) (.trans (run_drain s.closeDown) ht))
  have hcount : report.abandoned = if s.admission.closed then 0 else t.occupants.length := by
    change (s.beginShutdown.1.filter fun id => !t.vacated id).length = _
    cases hc : s.admission.closed with
    | true => simp [h.valid.handed_nobody hc]
    | false =>
        obtain ⟨past, hpast⟩ := History.exists_of_reachable h
        have hnodup : s.beginShutdown.1.Nodup :=
          hpast.reckons.outstanding (hpast.reckons.closed ▸ hc) ▸ nodup_occupying s past
        refine List.Perm.length_eq ((List.perm_ext_iff_of_nodup (hnodup.filter _)
          (nodup_occupants t)).mpr fun i => ?_)
        rw [List.mem_filter, h.valid.mem_handed hc, mem_occupants,
          outstanding_after_shutdown h hw ht, Bool.not_eq_true']
  have hcompleted : report.completed = true ↔ s.admission.closed = true ∨ t.occupants = [] := by
    rw [ShutdownReport.completed, beq_iff_eq, hcount]
    split <;> simp_all
  refine ⟨hcount, hcompleted, fun hc hdone hlive e he => ?_⟩
  exact hreach.valid.not_running hlive ((hcompleted.mp hdone).resolve_left (by simp [hc])) he

/-- A read that parked and does not heed its cancellation. -/
def stubborn : Machine Unit :=
  (start none).play 8 [.submit .read { mode := .hold }, .poll 0, .advance 0]

theorem report_of_shutdown_stubborn : Reachable none stubborn ∧ stubborn.work = [] ∧
    (stubborn.beginShutdown.2.finishShutdown stubborn.beginShutdown.1 50).1.abandoned = 1 := by
  have hreach : Reachable none stubborn := run_play 8 _ _
  have hopen : stubborn.admission.closed = false := rfl
  have hdrain : stubborn.beginShutdown.2 = stubborn.closeDown.steps 8 := drain_eq_steps 8 _ rfl
  have hcount := (report_of_shutdown hreach rfl .refl 50).1
  rw [hopen] at hcount
  refine ⟨hreach, rfl, hcount.trans ?_⟩
  rw [hdrain]
  rfl

/-- A shutdown has given up waiting for it. -/
def resigned : Machine Unit :=
  (start none).play 8 [.submit .read { mode := .hold }, .poll 0, .advance 0, .shutdown,
    .report [0] 50]

/-- The next shutdown reports that all is over, while the callback runs and its slot is occupied. -/
theorem completed_beside_callback : Reachable none resigned ∧ resigned.work = [] ∧
    (resigned.beginShutdown.2.finishShutdown resigned.beginShutdown.1 50).1.abandoned = 0 ∧
    (resigned.beginShutdown.2.finishShutdown resigned.beginShutdown.1 50).1.completed = true ∧
    resigned.beginShutdown.2.live = true ∧ resigned.beginShutdown.2.occupants = [0] ∧
    resigned.beginShutdown.2.At 0 (·.callback.isRunning = true) := by
  have hdrain : resigned.beginShutdown.2 = resigned.closeDown := drain_of_atRest rfl
  rw [hdrain]
  exact ⟨run_play 8 _ _, rfl, rfl, rfl, rfl, rfl, _, rfl, rfl⟩

end Machine

end RequestScheduler
