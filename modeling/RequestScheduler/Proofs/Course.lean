import RequestScheduler.Proofs.Passage

/-!
# The course of a slot

A slot that makes a passage goes from one phase to the next (`Station.Passage.phase`), and what is
still to be done for it finds it ready for that (`Station.Passage.apt`). So in whatever order the
steps come, every slot stays on its course (`Machine.Charted`): work items keep it there, and so
does what comes to a machine at rest, the loss of the runtime included. At rest, that tells what a
slot waits for that was dispatched (`Machine.Charted.awaited`).
-/

namespace RequestScheduler

variable {D : Type}

/-- A callback that is under way has begun, unless it was only handed over. -/
theorem Callback.hasBegun_of_isUnderway {c : Callback D} (hu : c.isUnderway = true)
    (hn : c.isWaiting = false) : c.hasBegun = true := by
  cases c with
  | held | dropped => cases hu
  | offered => cases hn
  | _ => rfl

namespace Station

/-- What a work item finds that vacates a slot. -/
def Apt (live : Bool) (b : Station D) : Work D → Prop
  | .endTask _ => b.task ≠ .unspawned ∧
      (live = true → b.task = .ended ∨ b.task = .working ∧ b.callback = .spent)
  | .vacate _ => b.task = .ended
  | .openVacancy _ => b.stage = .vacated ∧ b.task = .unspawned
  | _ => True

/-- A slot is on its way, and the work that is for it finds it ready. -/
structure Charted (s : Machine D) (i : Nat) (b : Station D) : Prop where
  phase : b.Phase s i
  apt : ∀ {w : Work D}, w ∈ s.work → w.vacates? = some i → b.Apt s.live w
  performing : ∀ {w : Work D}, w ∈ s.work → w.ends? = some i → b.callback = .running

variable {s t : Machine D} {i : Nat} {b c : Station D} {new : List (Work D)}

/-- Permits that are bounded stay so, if nothing happens to them but that they are closed. -/
theorem bounded_of_closing (hc : t.closing? = s.closing? ∨ t.closing? = some true)
    (hn : s.closing? ≠ none) : t.closing? ≠ none := by
  obtain hc | hc := hc <;> simp [hc, hn]

theorem closed_of_closing (hc : t.closing? = s.closing? ∨ t.closing? = some true)
    (hs : s.closing? = some true) : t.closing? = some true := by
  obtain hc | hc := hc <;> simp [hc, hs]

/-- A slot stays where it is while what keeps it going stays. -/
theorem Phase.mono (h : b.Phase s i) (hm : Machine.Minds i b.task s t) (hl : t.live = s.live)
    (hc : t.closing? = s.closing? ∨ t.closing? = some true) : b.Phase t i := by
  have bounded := bounded_of_closing hc
  have closed := closed_of_closing hc
  cases h with
  | refused hs hv ht hc => exact .refused hs hv ht hc
  | queued hs hv ht hc => exact .queued hs hv ht hc
  | skipped hs hv ht hc => exact .skipped hs (hv.imp_right fun hw => hm.work hw rfl) ht hc
  | waiting hs hv ht hk hc hw =>
      refine .waiting hs hv ht (fun hn => (hk hn).imp_right bounded) hc ?_
      refine hw.imp (fun hw => hm.work hw rfl) fun hw => ⟨hl.trans hw.1, ?_⟩
      split
      · rename_i hq
        exact hm.line hq (by simpa only [hq, ↓reduceIte] using hw.2)
      · rename_i hq
        refine hm.ready ?_ (by simpa only [hq, ↓reduceIte] using hw.2)
        cases hb : b.task <;> simp_all [Task.isWaiting]
  | working hs hv ht hc hw =>
      exact .working hs hv ht hc (hw.imp (fun hw => hm.work hw rfl) (And.imp_left hl.trans))
  | ended ht hs hb hc =>
      refine .ended ht (hs.imp_right fun hs => ⟨hs.1, hs.2.1, ?_⟩) hb fun hlive => ?_
      · exact hs.2.2.imp (fun hw => hm.work hw rfl) fun hw => hm.work hw rfl
      · exact (hc (hl ▸ hlive)).imp_right (And.imp_right (And.imp_right closed))

/-- A job belongs to its slot, or was given up, while there is no task. -/
theorem Phase.of_unspawned (h : b.Phase s i) (ht : b.task = .unspawned) :
    b.callback = .dropped ∨ ∃ job, b.callback = .held job := by
  cases h with
  | refused _ _ _ hc | skipped _ _ _ hc => exact .inl hc
  | queued _ _ _ hc => exact .inr hc
  | waiting _ _ hw => simp [ht, Task.isWaiting] at hw
  | working _ _ hw | ended hw => cases ht.symm.trans hw

/-- A slot that is queued has no task, and holds its job. -/
theorem Phase.of_queued (h : b.Phase s i) (hq : b.stage = .queued) :
    b.vacated = false ∧ b.task = .unspawned ∧ ∃ job, b.callback = .held job := by
  cases h with
  | queued _ hv ht hc => exact ⟨hv, ht, hc⟩
  | refused hs | skipped hs | waiting hs | working hs => cases hq.symm.trans hs
  | ended _ hs => simp [hq] at hs

/-- A slot whose task waits was dispatched, and holds its job. -/
theorem Phase.of_isWaiting (h : b.Phase s i) (ht : b.task.isWaiting = true) :
    b.stage = .dispatched ∧ b.vacated = false ∧
      (b.task.isServed = true → b.kind = .read ∧ s.closing? ≠ none) ∧
      (∃ job, b.callback = .held job) ∧ (.endTask i ∈ s.work ∨
        s.live = true ∧ if b.task = .queueing then s.InLine i else i ∈ s.ready.tasks) := by
  cases h with
  | waiting hs hv _ hk hc hw => exact ⟨hs, hv, hk, hc, hw⟩
  | refused _ _ hn | queued _ _ hn | skipped _ _ hn | working _ _ hn | ended hn =>
      simp [hn, Task.isWaiting] at ht

theorem Phase.of_working (h : b.Phase s i) (ht : b.task = .working) :
    b.stage = .dispatched ∧ b.vacated = false := by
  cases h with
  | working hs hv => exact ⟨hs, hv⟩
  | waiting _ _ hn => simp [ht, Task.isWaiting] at hn
  | refused _ _ hn | queued _ _ hn | skipped _ _ hn | ended hn => cases ht.symm.trans hn

/-- A job that is under way has a task that works on it, or whose runtime was lost. -/
theorem Phase.of_isUnderway (h : b.Phase s i) (hu : b.callback.isUnderway = true) :
    (b.stage = .dispatched ∧ b.vacated = false ∧ b.task = .working ∧
      (.endTask i ∈ s.work ∨ s.live = true)) ∨
    b.task = .ended ∧ s.live = false ∧ (∀ body, b.callback ≠ .offered body) ∧
      (b.stage = .vacated ∧ b.vacated = true ∨
        b.stage = .dispatched ∧ b.vacated = false ∧
          (.endTask i ∈ s.work ∨ .vacate i ∈ s.work)) := by
  cases h with
  | refused _ _ _ hc | skipped _ _ _ hc => simp [hc, Callback.isUnderway] at hu
  | queued _ _ _ hc | waiting _ _ _ _ hc =>
      obtain ⟨job, hc⟩ := hc
      simp [hc, Callback.isUnderway] at hu
  | working hs hv ht _ hw => exact .inl ⟨hs, hv, ht, hw.imp_right And.left⟩
  | ended ht hs hb hc =>
      refine .inr ⟨ht, Bool.eq_false_iff.mpr fun hlive => ?_, hb, hs⟩
      obtain hc | ⟨hc | ⟨_, hc⟩, _⟩ := hc hlive <;> simp [hc, Callback.isUnderway] at hu

section

variable (hb : b.Charted s i) (hl : t.live = s.live)
  (hc : t.closing? = s.closing? ∨ t.closing? = some true)

include hb hl hc

/-- A task that ends leaves the vacancy of its slot to be done. -/
theorem Charted.phase_endTask (hw : .endTask i ∈ s.work) (hn : .vacate i ∈ t.work) :
    ({ b with task := .ended, callback := b.callback.close } : Station D).Phase t i := by
  obtain ⟨ht, hend⟩ := hb.apt hw rfl
  have hbody (body : Body D) : b.callback.close ≠ .offered body := by
    cases b.callback <;> simp [Callback.close]
  cases hb.phase with
  | refused _ _ hn | queued _ _ hn | skipped _ _ hn => exact absurd hn ht
  | waiting hs hv hwait =>
      refine .ended rfl (.inr ⟨hs, hv, .inr hn⟩) hbody fun hlive => ?_
      obtain he | ⟨he, _⟩ := hend (hl ▸ hlive) <;> simp [he, Task.isWaiting] at hwait
  | working hs hv hwork =>
      refine .ended rfl (.inr ⟨hs, hv, .inr hn⟩) hbody fun hlive => ?_
      obtain he | ⟨_, he⟩ := hend (hl ▸ hlive)
      · cases hwork.symm.trans he
      · exact .inl (by rw [he]; rfl)
  | ended _ hs _ hover =>
      refine .ended rfl (hs.imp_right fun hs => ⟨hs.1, hs.2.1, .inr hn⟩) hbody fun hlive => ?_
      obtain hspent | ⟨hd | ⟨job, hd⟩, hk, hclosed⟩ := hover (hl ▸ hlive)
      · exact .inl (by rw [hspent]; rfl)
      · exact .inr ⟨.inl (by rw [hd]; rfl), hk, closed_of_closing hc hclosed⟩
      · exact .inr ⟨.inl (by rw [hd]; rfl), hk, closed_of_closing hc hclosed⟩

/-- A slot whose task has ended vacates. -/
theorem Charted.phase_vacate (hw : .vacate i ∈ s.work) :
    ({ b with stage := .vacated, vacated := true } : Station D).Phase t i := by
  have ht : b.task = .ended := hb.apt hw rfl
  cases hb.phase with
  | ended _ _ hbody hover =>
      exact .ended ht (.inl ⟨rfl, rfl⟩) hbody fun hlive =>
        (hover (hl ▸ hlive)).imp_right (And.imp_right (And.imp_right (closed_of_closing hc)))
  | waiting _ _ hn => simp [ht, Task.isWaiting] at hn
  | refused _ _ hn | queued _ _ hn | skipped _ _ hn | working _ _ hn => cases ht.symm.trans hn

omit hc

/-- A callback that parks or returns leaves its task at work, unless the runtime was lost. -/
theorem Charted.phase_yield {k : Callback D} (hrun : b.callback = .running)
    (hk : k.isUnderway = true ∧ k.isWaiting = false ∨ k = .spent ∧ b.task ≠ .working)
    (hm : Machine.Minds i b.task s t) : ({ b with callback := k } : Station D).Phase t i := by
  obtain ⟨hs, hv, ht, hwork⟩ | ⟨ht, hlost, _, hs⟩ := hb.phase.of_isUnderway (by rw [hrun]; rfl)
  · have hunder := (hk.resolve_right fun h => h.2 ht).1
    exact .working hs hv ht (.inl hunder)
      (hwork.imp (fun hw => hm.work hw rfl) fun hw => ⟨hl.trans hw, hunder⟩)
  · refine .ended ht (hs.imp_right fun hs => ⟨hs.1, hs.2.1, ?_⟩) (fun body hbody => ?_)
      fun hlive => ?_
    · exact hs.2.2.imp (fun hw => hm.work hw rfl) fun hw => hm.work hw rfl
    · obtain rfl : k = .offered body := hbody
      obtain ⟨_, hn⟩ | ⟨hn, _⟩ := hk <;> cases hn
    · cases hlive.symm.trans (hl.trans hlost)

/-- A callback that begins or goes on has its task at work, unless the runtime was lost. -/
theorem Charted.phase_resume (hw : s.work = []) (hunder : b.callback.isUnderway = true) :
    ({ b with callback := .running } : Station D).Phase t i := by
  obtain ⟨hs, hv, ht, hwork⟩ | ⟨ht, hlost, _, hs⟩ := hb.phase.of_isUnderway hunder
  · have hlive := hwork.resolve_left (by simp [hw])
    exact .working hs hv ht (.inl rfl) (.inr ⟨hl.trans hlive, rfl⟩)
  · refine .ended ht (hs.imp_right fun hs => by simp [hw] at hs) (by simp) fun hlive => ?_
    cases hlive.symm.trans (hl.trans hlost)

end

variable (h : b.Passage s t i new c) (hb : b.Charted s i) (hl : t.live = s.live)

include h hb hl

/-- A passage leads from one phase to another. -/
theorem Passage.phase (hc : t.closing? = s.closing? ∨ t.closing? = some true) (hn : new ⊆ t.work) :
    c.Phase t i := by
  have hphase := hb.phase
  cases h with
  | stay hm => exact hphase.mono hm hl hc
  | skip hq =>
      obtain ⟨_, ht, _⟩ := hphase.of_queued hq
      exact .skipped rfl (.inr (hn List.mem_cons_self)) ht rfl
  | dispatch hq hlive hr =>
      obtain ⟨hv, _, hjob⟩ := hphase.of_queued hq
      exact .waiting rfl hv rfl (fun hs => by cases hs) hjob (.inr ⟨hl.trans hlive, hr⟩)
  | drop hq hlive =>
      obtain ⟨hv, _, job, hjob⟩ := hphase.of_queued hq
      refine .ended rfl (.inr ⟨rfl, hv, .inl (hn List.mem_cons_self)⟩) (fun body hbody => ?_)
        fun ht => by cases ht.symm.trans (hl.trans hlive)
      cases hjob.symm.trans hbody
  | openVacancy hw =>
      obtain ⟨hs, ht⟩ := hb.apt hw rfl
      cases hphase with
      | skipped _ _ _ hc => exact .skipped hs (.inl rfl) ht hc
      | refused hn | queued hn | waiting hn | working hn => cases hs.symm.trans hn
      | ended hn => cases ht.symm.trans hn
  | vacate hw => exact hb.phase_vacate hl hc hw
  | endTask hw => exact hb.phase_endTask hl hc hw (hn List.mem_cons_self)
  | yield hw hcall hm =>
      obtain ⟨w, hw, hends⟩ := hw
      exact hb.phase_yield hl (hb.performing (List.mem_of_head? hw) hends) hcall hm
  | resume hw hunder => exact hb.phase_resume hl hw hunder
  | enqueue hw ht hk hp hq =>
      obtain ⟨hs, hv, _, hjob, hwait⟩ := hphase.of_isWaiting (by rw [ht]; rfl)
      refine .waiting hs hv rfl (fun _ => ⟨hk, hp⟩) hjob (.inr ⟨hl.trans ?_, hq⟩)
      exact (hwait.resolve_left (by simp [hw])).1
  | hand ht hm hr =>
      obtain ⟨hs, hv, hk, hjob, hwait⟩ := hphase.of_isWaiting (by rw [ht]; rfl)
      have hserved := hk (by rw [ht]; rfl)
      refine .waiting hs hv rfl (fun _ => hserved.imp_right (bounded_of_closing hc)) hjob ?_
      exact hwait.imp (fun hw => hm hw rfl) fun hw => ⟨hl.trans hw.1, hr⟩
  | stop hw ht hk hp =>
      obtain ⟨hs, hv, _, hjob, _⟩ := hphase.of_isWaiting ht
      refine .ended rfl (.inr ⟨hs, hv, .inl (hn List.mem_cons_self)⟩) (fun body hbody => ?_)
        fun _ => .inr ⟨.inr hjob, hk, closed_of_closing hc hp⟩
      obtain ⟨job, hjob⟩ := hjob
      cases hjob.symm.trans hbody
  | start hw ht hp hunder =>
      have hwaits : b.task.isWaiting = true := by obtain ht | ht := ht <;> rw [ht] <;> rfl
      obtain ⟨hs, hv, _, _, hwait⟩ := hphase.of_isWaiting hwaits
      refine .working hs hv rfl (.inl hunder) (.inr ⟨hl.trans ?_, hunder⟩)
      exact (hwait.resolve_left (by simp [hw])).1
  | finish hw ht hp =>
      have hwaits : b.task.isWaiting = true := by obtain ht | ht := ht <;> rw [ht] <;> rfl
      obtain ⟨hs, hv, _⟩ := hphase.of_isWaiting hwaits
      exact .working hs hv rfl (.inr rfl) (.inl (hn List.mem_cons_self))
  | hear hw ht hunder =>
      obtain ⟨hs, hv⟩ := hphase.of_working ht
      exact .working hs hv ht (.inr rfl) (.inl (hn List.mem_cons_self))

/-- What was to be done for the slot, and what is new, finds it ready still. -/
theorem Passage.apt {w : Work D} (hi : w.vacates? = some i) (hw : w ∈ s.work ∨ w ∈ new) :
    c.Apt t.live w := by
  have hphase := hb.phase
  -- Nothing vacates a slot that is queued.
  have queued (hq : b.stage = .queued) (hw : w ∈ s.work) : False := by
    have hold := hb.apt hw hi
    obtain ⟨_, ht, _⟩ := hphase.of_queued hq
    cases w with
    | endTask => exact hold.1 ht
    | vacate => cases ht.symm.trans hold
    | openVacancy => cases hq.symm.trans hold.1
    | _ => cases hi
  have resting (hs : s.work = []) : w ∈ new := hw.resolve_left (by simp [hs])
  cases h with
  | stay => exact hl ▸ hb.apt (hw.resolve_right List.not_mem_nil) hi
  | skip hq =>
      obtain rfl := List.mem_singleton.mp (hw.resolve_left (queued hq))
      obtain ⟨_, ht, _⟩ := hphase.of_queued hq
      exact ⟨rfl, ht⟩
  | dispatch hq => exact (queued hq (hw.resolve_right List.not_mem_nil)).elim
  | drop hq =>
      obtain rfl := List.mem_singleton.mp (hw.resolve_left (queued hq))
      exact ⟨by simp, fun _ => .inl rfl⟩
  | openVacancy =>
      have hold := hb.apt (hw.resolve_right List.not_mem_nil) hi
      cases w with
      | endTask => exact hl ▸ hold
      | vacate | openVacancy => exact hold
      | _ => cases hi
  | vacate =>
      have hold := hb.apt (hw.resolve_right List.not_mem_nil) hi
      cases w with
      | endTask => exact hl ▸ hold
      | vacate => exact hold
      | openVacancy => exact ⟨rfl, hold.2⟩
      | _ => cases hi
  | endTask hend =>
      cases w with
      | endTask => exact ⟨by simp, fun _ => .inl rfl⟩
      | vacate => rfl
      | openVacancy =>
          have hw := hw.resolve_right (by simp)
          exact absurd (hb.apt hw hi).2 (hb.apt hend rfl).1
      | _ => cases hi
  | yield hends =>
      obtain ⟨v, hv, hends⟩ := hends
      have hrun := hb.performing (List.mem_of_head? hv) hends
      have hold := hb.apt (hw.resolve_right List.not_mem_nil) hi
      cases w with
      | endTask =>
          refine ⟨hold.1, fun hlive => (hold.2 (hl ▸ hlive)).imp_right fun hn => ?_⟩
          cases hrun.symm.trans hn.2
      | vacate | openVacancy => exact hold
      | _ => cases hi
  | resume hs | enqueue hs | start hs => cases resting hs
  | hand ht =>
      have hold := hb.apt (hw.resolve_right List.not_mem_nil) hi
      cases w with
      | endTask =>
          refine ⟨by simp, fun hlive => ?_⟩
          obtain hn | ⟨hn, _⟩ := hold.2 (hl ▸ hlive) <;> cases ht.symm.trans hn
      | vacate => cases ht.symm.trans hold
      | openVacancy => cases ht.symm.trans hold.2
      | _ => cases hi
  | stop hs =>
      obtain rfl := List.mem_singleton.mp (resting hs)
      exact ⟨by simp, fun _ => .inl rfl⟩
  | finish hs =>
      obtain rfl := List.mem_singleton.mp (resting hs)
      exact ⟨by simp, fun _ => .inr ⟨rfl, rfl⟩⟩
  | hear hs ht =>
      obtain rfl := List.mem_singleton.mp (resting hs)
      exact ⟨by simp [ht], fun _ => .inr ⟨ht, rfl⟩⟩

omit hl

/-- While there is work, a callback that performs goes on unless it is its turn to stop. -/
theorem Passage.running {w : Work D} (hw : s.work.head? = some w) (hn : w.ends? ≠ some i)
    (hr : b.callback = .running) : c.callback = .running := by
  have busy (hs : s.work = []) : False := by simp [hs] at hw
  cases h with
  | stay | dispatch | drop | openVacancy | vacate | hand => exact hr
  | skip hq =>
      obtain ⟨_, _, job, hc⟩ := hb.phase.of_queued hq
      cases hr.symm.trans hc
  | endTask => simp [hr, Callback.close]
  | yield hends =>
      obtain ⟨v, hv, hends⟩ := hends
      obtain rfl := Option.some.inj (hw.symm.trans hv)
      exact absurd hends hn
  | resume hs | enqueue hs | stop hs | start hs | finish hs | hear hs => exact (busy hs).elim

/-- While there is work, no job begins. -/
theorem Passage.hasBegun {w : Work D} (hw : s.work.head? = some w) :
    c.callback.hasBegun = b.callback.hasBegun := by
  have busy (hs : s.work = []) : False := by simp [hs] at hw
  cases h with
  | stay | dispatch | drop | openVacancy | vacate | hand => rfl
  | skip hq =>
      obtain ⟨_, _, job, hc⟩ := hb.phase.of_queued hq
      rw [hc]
      rfl
  | endTask => cases b.callback <;> rfl
  | yield hends hc =>
      obtain ⟨v, hv, hends⟩ := hends
      rw [hb.performing (List.mem_of_head? hv) hends]
      obtain ⟨hu, hn⟩ | ⟨rfl, _⟩ := hc
      · exact Callback.hasBegun_of_isUnderway hu hn
      · rfl
  | resume hs | enqueue hs | stop hs | start hs | finish hs | hear hs => exact (busy hs).elim

end Station

namespace Machine

variable {s t u : Machine D} {i j : Nat} {e f : Entry D} {w v : Work D} {bound : Option Nat}
  {rest new : List (Work D)}

/-- Every slot is on its way, and all work finds what it is for. -/
structure Charted (bound : Option Nat) (s : Machine D) : Prop where
  metered : Metered bound 0 s
  slot : ∀ {i : Nat} {e : Entry D}, s.entries[i]? = some e → e.station.Charted s i
  known : ∀ {w : Work D} {i : Nat}, w ∈ s.work → w.vacates? = some i ∨ w.ends? = some i →
    s.At i fun _ => True
  /-- One callback performs at a time. -/
  single : (s.work.filter (·.ends?.isSome)).length ≤ 1

theorem Charted.performing (h : Charted bound s) (hw : w ∈ s.work) (hi : w.ends? = some i) :
    s.At i (·.callback = .running) := by
  obtain ⟨e, he, _⟩ := h.known hw (.inr hi)
  exact ⟨e, he, (h.slot he).performing hw hi⟩

theorem Charted.phase (h : Charted bound s) (he : s.entries[i]? = some e) :
    e.station.Phase s i := (h.slot he).phase

/-- A slot that is dispatched is never forgotten. -/
theorem Charted.awaited (h : Charted bound s) (he : s.entries[i]? = some e) (hw : s.work = [])
    (hd : e.stage = .dispatched) : s.live = true ∧
      (e.callback.isUnderway = true ∨ i ∈ s.ready.tasks ∨
        s.InQueue i ∧ e.kind = .read ∧ bound = some s.holders) := by
  have none {w : Work D} : w ∉ s.work := by simp [hw]
  cases h.phase he with
  | refused hs | queued hs | skipped hs => cases hs.symm.trans hd
  | working _ _ _ _ hwork =>
      obtain ⟨hl, hu⟩ := hwork.resolve_left none
      exact ⟨hl, .inl hu⟩
  | waiting _ _ _ hk _ hwait =>
      obtain ⟨hl, hwait⟩ := hwait.resolve_left none
      refine ⟨hl, .inr ?_⟩
      split at hwait
      · rename_i hq
        obtain hline | ⟨_, hready⟩ := hwait
        · refine .inr ⟨hline, (hk (by rw [hq]; rfl)).1, ?_⟩
          obtain ⟨p, hp, hi⟩ := hline
          have hfree := h.metered.scarce hp (List.ne_nil_of_mem hi)
          rw [h.metered.conserved hp, hfree, charges_eq_holders]
          simp
        · exact .inl hready
      · exact .inl hwait
  | ended _ hs =>
      obtain ⟨hs, _⟩ | ⟨_, _, hw⟩ := hs
      · cases hs.symm.trans hd
      · exact (hw.elim none none).elim

/-- A slot that has a task is dispatched until it vacates. -/
theorem Charted.dispatched (h : Charted bound s) (he : s.entries[i]? = some e)
    (ht : e.task ≠ .unspawned) (hv : e.isVacated = false) : e.stage = .dispatched := by
  cases h.phase he with
  | refused _ _ hn | queued _ _ hn | skipped _ _ hn => exact absurd hn ht
  | waiting hs | working hs => exact hs
  | ended _ hs =>
      obtain ⟨_, hn⟩ | ⟨hs, _⟩ := hs
      · cases hv.symm.trans hn
      · exact hs

/-- By the time that a slot with a task vacates its callback is over, unless the runtime was lost
or the permits were closed to a read. -/
theorem Charted.over (h : Charted bound s) (he : s.entries[i]? = some e)
    (ht : e.task ≠ .unspawned) (hv : e.isVacated = true) (hl : s.live = true) :
    e.callback = .spent ∨ e.kind = .read ∧ s.closing? = some true := by
  have occupied {p : Prop} (hn : e.isVacated = false) : p := by cases hv.symm.trans hn
  cases h.phase he with
  | refused _ hn | queued _ hn | waiting _ hn | working _ hn => exact occupied hn
  | skipped _ _ hn => exact absurd hn ht
  | ended _ _ _ hc => exact (hc hl).imp_right And.right

/-- Where every slot makes a passage, every slot stays on its way. -/
theorem Charted.passes (h : Charted bound s) (hp : Passes s t) (hm : Metered bound 0 t)
    (hends : ∀ {v : Work D} {i : Nat}, v ∈ t.work → v.ends? = some i →
      t.At i (·.callback = .running))
    (hs : (t.work.filter (·.ends?.isSome)).length ≤ 1) : Charted bound t where
  metered := hm
  slot {i f} hf := by
    have running {w : Work D} (hw : w ∈ t.work) (hi : w.ends? = some i) : f.callback = .running :=
      (hends hw hi).of_entry hf
    cases he : s.entries[i]? with
    | some e =>
        obtain ⟨g, new, hg, hpass, hsub, hmem⟩ := hp.entry he
        obtain rfl := Option.some.inj (hf.symm.trans hg)
        exact ⟨hpass.phase (h.slot he) hp.live hp.closing hsub,
          fun hw hi => hpass.apt (h.slot he) hp.live hi (hmem _ hw hi), running⟩
    | none =>
        refine ⟨(hp.newcomer he hf).1, fun hw hi => ?_, running⟩
        obtain hw | hn := hp.work hw hi
        · obtain ⟨a, ha, _⟩ := h.known hw (.inl hi)
          cases he.symm.trans ha
        · exact absurd he hn
  known {w i} hw hi := by
    have there (hn : s.entries[i]? ≠ none) : t.At i fun _ => True := by
      obtain ⟨e, he⟩ := Option.ne_none_iff_exists'.mp hn
      obtain ⟨f, _, hf, _⟩ := hp.entry he
      exact ⟨f, hf, trivial⟩
    obtain hi | hi := hi
    · refine there ?_
      obtain hw | hn := hp.work hw hi
      · obtain ⟨a, ha, _⟩ := h.known hw (.inl hi)
        simp [ha]
      · exact hn
    · exact (hends hw hi).imp fun _ _ => trivial
  single := hs

/-- No callback is to stop that was not to stop before. -/
theorem Clears.ends (h : Clears s t) :
    ∃ l, t.work = l ++ s.work ∧ ∀ v ∈ l, v.ends? = none := by
  obtain ⟨new, hn, hp⟩ := h
  obtain ⟨l, hw, _, hl⟩ := hp.work
  refine ⟨l, hw, fun v hv => ?_⟩
  obtain hv | hv := hl v hv
  · have hsome := hn v hv
    cases v with
    | park | finish => cases hsome
    | _ => rfl
  · exact Work.ends?_of_isCommon hv.1

theorem Clears.mem (h : Clears s t) (hv : v ∈ t.work) (hi : v.ends? = some i) : v ∈ s.work := by
  obtain ⟨l, hw, hl⟩ := h.ends
  rw [hw] at hv
  refine (List.mem_append.mp hv).resolve_left fun hv => ?_
  cases hi.symm.trans (hl v hv)

theorem Clears.filter (h : Clears s t) :
    t.work.filter (·.ends?.isSome) = s.work.filter (·.ends?.isSome) := by
  obtain ⟨l, hw, hl⟩ := h.ends
  have hnone : l.filter (·.ends?.isSome) = [] :=
    List.filter_eq_nil_iff.mpr fun v hv => by simp [hl v hv]
  rw [hw, List.filter_append, hnone, List.nil_append]

/-- Work keeps all slots on their way. -/
theorem Charted.exec (h : Charted bound s) (hw : s.work = w :: rest) :
    Charted bound (exec w { s with work := rest }) := by
  have hclears := exec_clears w { s with work := rest }
  have hp := exec_passes h.metered hw
  have hrest : (rest.filter (·.ends?.isSome)).length ≤ 1 := by
    refine Nat.le_trans ?_ h.single
    rw [hw]
    exact ((List.sublist_cons_self w rest).filter _).length_le
  refine h.passes hp ?_ (fun {v i} hv hi => ?_) (by rw [hclears.filter]; exact hrest)
  · have hm : Metered bound 0 { s with work := rest } := h.metered.same rfl rfl
    cases hseat : w.seat? with
    | none =>
        have hst := Act.steady (a := .item w) (s := s) (by simp [Act.isBusy, hseat])
        rw [Act.apply_item hw] at hst
        exact h.metered.steady hst
    | some j =>
        refine hm.exec (by simp [hseat]) fun {i e} he hq => ?_
        have hq : e.station.stage = .queued := hq
        cases h.phase he with
        | queued _ _ ht => exact ht
        | refused hs | skipped hs | waiting hs | working hs => cases hq.symm.trans hs
        | ended _ hs => simp [hq] at hs
  · -- The callback that performs is not the one whose turn it is to stop.
    have hmem : v ∈ rest := hclears.mem hv hi
    have hv : v ∈ s.work := hw ▸ List.mem_cons_of_mem _ hmem
    obtain ⟨e, he, hr⟩ := h.performing hv hi
    obtain ⟨f, new, hf, hpass, _⟩ := hp.entry he
    refine ⟨f, hf, hpass.running (h.slot he) (by rw [hw]; rfl) (fun hn => ?_) hr⟩
    have hsingle := h.single
    rw [hw, List.filter_cons_of_pos (by simp [hn])] at hsingle
    have : v ∈ rest.filter (·.ends?.isSome) := List.mem_filter.mpr ⟨hmem, by simp [hi]⟩
    have := List.length_pos_of_mem this
    simp only [List.length_cons] at hsingle
    omega

/-- Where nothing vacates a slot but what is listed, no callback is to stop. -/
theorem Clears.resting (h : Clears s t) (hw : s.work = []) : ∀ v ∈ t.work, v.ends? = none := by
  obtain ⟨l, ht, hl⟩ := h.ends
  rw [ht, hw, List.append_nil]
  exact hl

/-- A move that leaves no callback to stop keeps all slots on their way. -/
theorem Charted.clears (h : Charted bound s) (hw : s.work = []) (hp : Passes s t)
    (hm : Metered bound 0 t) (hc : Clears s t) : Charted bound t := by
  have hnone := hc.resting hw
  refine h.passes hp hm (fun hv hi => by simp [hnone _ hv] at hi) ?_
  rw [hc.filter, hw]
  exact Nat.zero_le 1

/-- All slots stay where they are, and new ones are at the start of their way. -/
structure Lingers (s t : Machine D) : Prop where
  steady : s.Steady t
  live : t.live = s.live
  pushes : Pushes [] s t
  newcomer : ∀ {i : Nat} {f : Entry D}, s.entries[i]? = none → t.entries[i]? = some f →
    f.station.Phase t i

theorem Lingers.passes (h : Lingers s t) : Passes s t :=
  .steady h.steady h.live h.pushes (List.Subset.refl _) (fun hv _ => hv) h.newcomer

theorem Charted.lingers (h : Charted bound s) (hw : s.work = []) (hl : Lingers s t) :
    Charted bound t :=
  h.clears hw hl.passes (h.metered.steady hl.steady) hl.pushes.clears

theorem begin_lingers {m : Move D} (hm : m.isBusy = false) (s : Machine D) :
    Lingers s (m.begin s) where
  steady := Act.steady (a := .move m) hm
  live := live_begin hm s
  pushes := begin_pushes m hm s
  newcomer hs hf := phase_of_idle (a := .move m) hm hs hf

/-- The poll of a task keeps the permits together. -/
theorem Metered.poll_of_held (h : Metered bound 0 s) (hj : ∀ {e : Entry D}, s.entries[j]? = some e →
      e.task.isWaiting = true → ∃ job, e.callback = .held job) : Metered bound 0 (s.poll j) := by
  cases he : s.entries[j]? with
  | none => simpa only [Machine.poll, he] using h
  | some e =>
  have hvisit := visited he
  generalize s.poll j = t at hvisit ⊢
  -- The job is started with the permit that it needs.
  have start {k : Nat} {u : Machine D} (hone : Metered bound k u) (hu : u.entries = s.entries)
      (ht : e.task = .fresh ∨ e.task = .handed)
      (hk : (if e.kind = .read then 1 else 0) = e.station.charge + k) :
      Metered bound 0 (u.startJob j) := by
    have hwait : e.task.isWaiting = true := by obtain ht | ht := ht <;> rw [ht] <;> rfl
    have hue : u.entries[j]? = some e := by rw [hu, he]
    obtain ⟨job, hb⟩ := hj he hwait
    obtain ⟨c, new, hsw, _⟩ := swaps_startJob hue hb
    refine hone.set hue hsw.entries hsw.permits rfl
      (.inr ⟨by simp, hone.not_mem_queue hue ?_⟩) ?_
    · obtain ht | ht := ht <;> simp [ht]
    · rw [← hk]
      simp [Entry.station, Station.charge]
  cases hvisit with
  | idle => exact h
  | closed ht hs =>
      refine h.closeOut he ?_ (h.not_mem_of_shut hs)
      obtain ⟨ht, _⟩ | ht := ht
      · simp [ht]
      · rintro hw
        simp [hw, Task.isServed] at ht
  | enqueue ht hk hp hc ha => exact h.enqueue hp hc ha he hk ht rfl rfl
  | @take p n ht hk hp hc ha =>
      refine start (h.take (t := { s with permits := some { p with available := n } }) hp ha rfl
        rfl) rfl (.inl ht) ?_
      rw [charge_of_task (by simp [ht]) (by simp [ht])]
      simp [hk]
  | start ht =>
      obtain ⟨ht, hn⟩ | ⟨ht, _⟩ := ht
      · have hzero : e.station.charge = 0 := charge_of_task (by simp [ht]) (by simp [ht])
        cases hk : e.kind with
        | read => exact start (k := 1) (h.unbounded (hn hk)) rfl (.inl ht) (by simp [hk, hzero])
        | write => exact start h rfl (.inl ht) (by simp [hk, hzero])
      · have hk := h.handed he ht
        exact start h rfl (.inr ht) (by simp [hk, Entry.station, Station.charge, ht])
  | go ht =>
      obtain hidle | ⟨_, _, hsw, _⟩ := swaps_continueJob he
      · rwa [hidle]
      · exact h.set he hsw.entries hsw.permits rfl (.inl rfl) rfl

/-- The poll of a task leaves no callback to stop. -/
theorem poll_clears (hj : ∀ {e : Entry D}, s.entries[j]? = some e →
    e.task.isWaiting = true → ∃ job, e.callback = .held job) : Clears s (s.poll j) := by
  have nothing {t : Machine D} (h : t.work = s.work) : Clears s t := (Pushes.nothing h).clears
  cases he : s.entries[j]? with
  | none => exact nothing (by simp only [Machine.poll, he])
  | some e =>
  have hvisit := visited he
  generalize s.poll j = t at hvisit ⊢
  have start {p : Option Permits} (ht : e.task.isWaiting = true) :
      Clears s ({ s with permits := p }.startJob j) := by
    obtain ⟨job, hb⟩ := hj he ht
    obtain ⟨c, new, hsw, hnew, _⟩ := swaps_startJob (s := { s with permits := p }) he hb
    refine ⟨new, ?_, ⟨hsw.pushes.work⟩⟩
    obtain ⟨_, rfl⟩ | ⟨_, rfl⟩ := hnew <;> simp [Work.vacates?]
  cases hvisit with
  | idle => exact nothing rfl
  | closed =>
      refine ⟨[.endTask j], by simp [Work.vacates?],
        [.settle j (.error .cancelled), .endTask j], ?_, by simp,
        by simp [Work.isCommon, Work.begun?]⟩
      simp only [closeOut, he, work_cancelThen]
      split <;> simp [put]
  | enqueue => exact nothing rfl
  | take ht => exact start (by rw [ht]; rfl)
  | start ht =>
      refine start ?_
      obtain ⟨ht, _⟩ | ⟨ht, _⟩ := ht <;> rw [ht] <;> rfl
  | go =>
      obtain hidle | ⟨_, _, hsw, _⟩ := swaps_continueJob he
      · exact nothing (by rw [hidle])
      · exact ⟨_, by simp [Work.vacates?], hsw.pushes⟩

/-- A callback that begins, or goes on, performs until it stops, and no other does. -/
theorem work_of_advance (hw : s.work = []) (j : Nat) : (s.advance j).work = [] ∨
    ∃ (es : List (Effect D)) (v : Work D), (s.advance j).work = es.map .perform ++ [v] ∧
      v.ends? = some j ∧ v.begun? = none ∧ (s.advance j).At j (·.callback = .running) := by
  unfold advance
  split
  · exact .inl hw
  rename_i e he
  have running {t : Machine D} (ht : t.entries = s.entries.set j { e with callback := .running }) :
      t.At j (·.callback = .running) := .of_set he ht rfl
  split
  · rename_i body _
    simp only [push, put, emit, pause, hw, List.append_nil]
    cases body.mode with
    | straight =>
        exact .inr ⟨body.pre ++ body.post, .finish j body.result, by simp, rfl, rfl, running rfl⟩
    | hold | cooperative => exact .inr ⟨body.pre, _, rfl, rfl, rfl, running rfl⟩
  · rename_i body _
    simp only [push, put, emit, pause, hw, List.append_nil]
    exact .inr ⟨body.post, _, rfl, rfl, rfl, running rfl⟩
  · exact .inl hw

/-- The runtime goes away: whoever has a task is about to be ended. -/
theorem Charted.lose {tasks : List Nat} (h : Charted bound s) (hw : s.work = [])
    (hp : tasks.Perm s.aliveTasks) :
    Charted bound ({ s with live := false, ready := {} }.push (tasks.map .endTask)) where
  metered := h.metered.same rfl rfl
  slot {i e} he := by
    have he : s.entries[i]? = some e := he
    have ending (ht : e.isAlive = true) : Work.endTask i ∈ tasks.map Work.endTask ++ s.work :=
      List.mem_append_left _ (List.mem_map_of_mem (hp.mem_iff.mpr (mem_aliveTasks.mpr ⟨e, he, ht⟩)))
    refine ⟨?_, fun {w} hm hi => ?_, fun {w} hm hi => ?_⟩
    · cases h.phase he with
      | refused hs hv ht hc => exact .refused hs hv ht hc
      | queued hs hv ht hc => exact .queued hs hv ht hc
      | skipped hs hv ht hc => exact .skipped hs (.inl (hv.resolve_right (by simp [hw]))) ht hc
      | waiting hs hv ht hk hc =>
          refine .waiting hs hv ht hk hc (.inl (ending ?_))
          have ht : e.task.isWaiting = true := ht
          unfold Entry.isAlive
          cases hb : e.task <;> simp_all [Task.isWaiting]
      | working hs hv ht hc =>
          refine .working hs hv ht hc (.inl (ending ?_))
          rw [Entry.isAlive, show e.task = .working from ht]
      | ended ht hs hb =>
          exact .ended ht (.inl (hs.resolve_right (by simp [hw]))) hb (fun hlive => by cases hlive)
    · simp only [push, hw, List.append_nil, List.mem_map] at hm
      obtain ⟨j, hj, rfl⟩ := hm
      obtain rfl := Option.some.inj hi
      have halive := (mem_aliveTasks.mp (hp.mem_iff.mp hj)).of_entry he
      refine ⟨fun hn => ?_, fun hlive => by cases hlive⟩
      rw [Entry.isAlive, show e.task = .unspawned from hn] at halive
      cases halive
    · simp only [push, hw, List.append_nil, List.mem_map] at hm
      obtain ⟨j, _, rfl⟩ := hm
      cases hi
  known {w i} hm hi := by
    simp only [push, hw, List.append_nil, List.mem_map] at hm
    obtain ⟨j, hj, rfl⟩ := hm
    obtain hi | hi := hi
    · obtain rfl := Option.some.inj hi
      exact (mem_aliveTasks.mp (hp.mem_iff.mp hj)).imp fun _ _ => trivial
    · cases hi
  single := by
    rw [push, hw, List.append_nil, List.filter_eq_nil_iff.mpr fun v hv => ?_]
    · exact Nat.zero_le 1
    · obtain ⟨j, _, rfl⟩ := List.mem_map.mp hv
      simp [Work.ends?]

/-- What comes to a manager's machine keeps all slots on their way. -/
theorem Charted.begin (h : Charted bound s) (hw : s.work = []) (m : Move D) :
    Charted bound (m.begin s) := by
  cases hb : m.isBusy with
  | false => exact h.lingers hw (begin_lingers hb s)
  | true =>
  have held {i : Nat} {e : Entry D} (he : s.entries[i]? = some e)
      (ht : e.task.isWaiting = true) : ∃ job, e.callback = .held job :=
    (held_of_isWaiting (h.phase he) ht).2
  have hm : Metered bound 0 (m.begin s) := by
    refine h.metered.begin (fun {i a} _ => ?_) hb
    have hready : Metered bound 0 { s with ready := a } := h.metered.same rfl rfl
    exact hready.poll_of_held held
  have hpass := begin_passes h.metered h.phase hw m
  cases m with
  | shutdown =>
      refine h.clears hw (hpass (by simp)) hm
        (Pushes.clears (.plain (work_closeDown s) fun v hv => ?_))
      obtain ⟨i, _, rfl⟩ := List.mem_map.mp hv
      exact ⟨rfl, rfl⟩
  | poll i =>
      refine h.clears hw (hpass (by simp)) hm ?_
      simp only [Move.begin]
      split
      · exact (Pushes.nothing rfl).clears
      · rename_i a _
        obtain ⟨new, hn, hp⟩ := poll_clears (s := { s with ready := a }) (j := i) held
        exact ⟨new, hn, ⟨hp.work⟩⟩
  | advance i =>
      obtain hnone | ⟨es, u, ht, hu, _, hr⟩ := work_of_advance hw i
      · exact h.passes (hpass (by simp)) hm (fun hv => by simp [Move.begin, hnone] at hv)
          (by simp [Move.begin, hnone])
      refine h.passes (hpass (by simp)) hm (fun {v j} hv hj => ?_) ?_
      · rw [Move.begin, ht] at hv
        obtain hv | hv := List.mem_append.mp hv
        · obtain ⟨c, _, rfl⟩ := List.mem_map.mp hv
          cases hj
        · obtain rfl := List.mem_singleton.mp hv
          obtain rfl := Option.some.inj (hu.symm.trans hj)
          exact hr
      · have hnone : (es.map Work.perform).filter (·.ends?.isSome) = [] :=
          List.filter_eq_nil_iff.mpr fun v hv => by
            obtain ⟨c, _, rfl⟩ := List.mem_map.mp hv
            simp [Work.ends?]
        rw [Move.begin, ht, List.filter_append, hnone, List.nil_append]
        exact List.length_filter_le _ _
  | lose tasks =>
      simp only [Move.begin]
      split
      · rename_i hl
        exact h.lose hw hl.2
      · exact h
  | _ => cases hb

theorem charted_start (bound : Option Nat) :
    Charted bound (.start (Permits.ofBound bound) : Machine D) where
  metered := metered_start bound
  slot he := by simp [start] at he
  known hw := by simp [start] at hw
  single := by simp [start]

theorem Reachable.charted (h : Reachable (Permits.ofBound bound) s) : Charted bound s :=
  Run.act_induction h (valid_start _) (charted_start bound) fun {u a} _ hu ha => by
    cases a with
    | item w =>
        obtain ⟨rest, hw⟩ := Act.enabled_item.mp ha
        rw [Act.apply_item hw]
        exact hu.exec hw
    | move m => exact hu.begin ha m

end Machine

end RequestScheduler
