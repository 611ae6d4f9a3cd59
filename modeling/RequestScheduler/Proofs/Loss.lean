import RequestScheduler.Proofs.Awake

/-!
# When the runtime is lost

A runtime that goes away drops its tasks, and drops at once whatever task is handed to it later. So
whoever is alive in a machine whose runtime is lost is about to be ended (`Machine.Stripped`), and
between operations nobody is: every slot has vacated then, and no callback begins any more
(`Machine.settled_after_loss`). Ending a task may release gates, which dispatch slots, whose tasks
are ended in turn; like all work, this comes to an end.
-/

namespace RequestScheduler

variable {D : Type}

/-- Whether the task exists and is not over, or its callback is handed to the pool and may begin. -/
def Entry.Afoot (e : Entry D) : Prop := e.isAlive = true ∨ ∃ body, e.callback = .offered body

namespace Entry

variable {e f : Entry D}

theorem not_afoot_ended (e : Entry D) :
    ¬Afoot { e with task := .ended, callback := e.callback.close } := by
  rintro (ha | ⟨body, hb⟩)
  · cases ha
  · cases hc : e.callback <;> simp [hc, Callback.close] at hb

theorem not_afoot_refused (kind : Kind) : ¬(refused kind : Entry D).Afoot := by
  simp [Afoot, isAlive, refused]

theorem not_afoot_queued (kind : Kind) (seq : UInt64) (body : Body D) :
    ¬(queued kind seq (.callback body)).Afoot := by
  simp [Afoot, isAlive, queued]

/-- A touch sets nobody afoot. -/
theorem Touch.afoot (h : e.Touch f) (hf : f.Afoot) : e.Afoot := by
  induction h with
  | trans _ _ ih₁ ih₂ => exact ih₁ (ih₂ hf)
  | enqueue h | hand h => exact .inl (by simp [isAlive, h])
  | offer h => obtain h | h := h <;> exact .inl (by simp [isAlive, h])
  | stop => exact .inr (hf.resolve_left (by simp [isAlive]))
  | endTask => exact absurd hf (not_afoot_ended _)
  | resume | hear => exact .inl (hf.resolve_right (by simp))
  | _ => exact hf

theorem Yield.afoot (h : e.Yield f) (hf : f.Afoot) : e.Afoot := by
  cases h <;> exact .inl (hf.resolve_right (by simp))

end Entry

namespace Machine

variable {s t u : Machine D} {bound : Option Nat} {i : Nat} {e : Entry D} {kind : Kind}
  {tasks : List Nat}

/-- The runtime is lost, and whoever is afoot is about to be ended. -/
structure Stripped (s : Machine D) : Prop where
  lost : s.live = false
  ending : ∀ {i : Nat} {e : Entry D}, s.entries[i]? = some e → e.Afoot → .endTask i ∈ s.work

theorem Cancels.not_ending {done after : List (Work D)} (h : Cancels i e done after) (j : Nat) :
    .endTask j ∉ done := by
  cases h with
  | client hd => exact fun hj => by simpa [Work.isIdle] using hd _ hj
  | _ => simp

/-- The rules set nobody afoot once the runtime is lost. -/
theorem Rule.stripped (h : Rule s t) (hs : s.Coherent) (hp : s.Stripped) : t.Stripped := by
  have hlost : t.live = false := Bool.eq_false_iff.mpr fun hl => by
    simpa [hp.lost] using (h.grows hs).live hl
  have keep (he : ∀ {i : Nat} {f : Entry D}, t.entries[i]? = some f → f.Afoot →
        ∃ e, s.entries[i]? = some e ∧ e.Afoot)
      (hw : ∀ {i : Nat}, .endTask i ∈ s.work → .endTask i ∈ t.work) : t.Stripped :=
    ⟨hlost, fun hf ha => by
      obtain ⟨e, he, ha⟩ := he hf ha
      exact hw (hp.ending he ha)⟩
  have same (ht : t.entries = s.entries) {i : Nat} {f : Entry D} (hf : t.entries[i]? = some f)
      (ha : f.Afoot) : ∃ e, s.entries[i]? = some e ∧ e.Afoot := ⟨f, ht ▸ hf, ha⟩
  have set {j : Nat} {e g : Entry D} (he : s.entries[j]? = some e)
      (ht : t.entries = s.entries.set j g) (hg : g.Afoot → e.Afoot) {i : Nat} {f : Entry D}
      (hf : t.entries[i]? = some f) (ha : f.Afoot) : ∃ e, s.entries[i]? = some e ∧ e.Afoot := by
    rw [ht] at hf
    obtain ⟨rfl, rfl⟩ | ⟨_, hf⟩ := getElem?_set_cases hf
    · exact ⟨e, he, hg ha⟩
    · exact ⟨f, hf, ha⟩
  have append {g : Entry D} (ht : t.entries = s.entries ++ [g]) (hg : ¬g.Afoot) {i : Nat}
      {f : Entry D} (hf : t.entries[i]? = some f) (ha : f.Afoot) :
      ∃ e, s.entries[i]? = some e ∧ e.Afoot := by
    obtain ⟨_, rfl⟩ | hf := getElem?_concat_cases (ht ▸ hf)
    · exact absurd ha hg
    · exact ⟨f, hf, ha⟩
  -- Idle work ends no task.
  have idle {done rest : List (Work D)} (hw : s.work = done ++ rest) (hd : ∀ w ∈ done, w.isIdle)
      {i : Nat} (hi : .endTask i ∈ s.work) : .endTask i ∈ rest := by
    rw [hw] at hi
    refine (List.mem_append.mp hi).resolve_left fun hi => ?_
    simpa [Work.isIdle] using hd _ hi
  have next {w : Work D} {rest : List (Work D)} (hw : s.work = w :: rest)
      (hn : ∀ i, w ≠ .endTask i) {i : Nat} (hi : .endTask i ∈ s.work) : .endTask i ∈ rest := by
    rw [hw] at hi
    exact (List.mem_cons.mp hi).resolve_left fun heq => hn i heq.symm
  cases h with
  | touch h hw ht hd =>
      refine keep (fun {i f} hf ha => ?_) fun hi => ht ▸ List.mem_append_right _ (idle hw hd hi)
      have hlt : i < s.entries.length := h.length ▸ (List.getElem?_eq_some_iff.mp hf).1
      obtain ⟨g, hg, heg⟩ := h.entry (List.getElem?_eq_getElem hlt)
      obtain rfl := Option.some.inj (hf.symm.trans hg)
      exact ⟨_, List.getElem?_eq_getElem hlt, heg.afoot ha⟩
  | prune => exact keep (same rfl) id
  | pass hw hd => exact keep (same rfl) (next hw fun i heq => by subst heq; exact hd)
  | publish hw he =>
      exact keep (set he rfl id) fun hi => List.mem_append_right _ (next hw (by simp) hi)
  | flag he => exact keep (set he rfl id) id
  | cancel hw he hc =>
      refine keep (set he rfl id) fun {i} hi => List.mem_append_right _ ?_
      rw [hw] at hi
      exact (List.mem_append.mp hi).resolve_left (hc.not_ending i)
  | collect hw hd => exact keep (same rfl) fun hi => List.mem_append_right _ (idle hw hd hi)
  | close => exact keep (same rfl) fun hi => List.mem_append_right _ hi
  | skip hw hwork he =>
      refine keep (set he rfl fun ha => .inl (ha.resolve_right (by simp))) fun hi =>
        List.mem_cons_of_mem _ (next hw ?_ hi)
      obtain rfl | rfl := hwork <;> simp
  | vacate hw he _ hwork =>
      refine keep (set he rfl id) fun hi => List.mem_append_right _ (next hw ?_ hi)
      obtain ⟨rfl, _⟩ | ⟨rfl, _⟩ := hwork <;> simp
  | spawn hw he hq _ hl =>
      obtain ⟨hl, _⟩ | ⟨_, rfl, rfl⟩ := hl
      · cases hp.lost.symm.trans hl
      · obtain ⟨body, hb⟩ := ((hs he).queued hq).2.2
        refine keep (set he rfl fun ha => ?_) fun hi =>
          List.mem_append_right _ (next hw (by simp) hi)
        obtain ha | ⟨_, hoffered⟩ := ha
        · cases ha
        · cases hb.symm.trans hoffered
  | chain hw =>
      exact keep (same rfl) fun hi =>
        List.mem_append_right _ (List.mem_cons_of_mem _ (next hw (by simp) hi))
  | enrol hw he => exact keep (set he rfl id) (next hw (by simp))
  | forward hw hwork =>
      refine keep (same rfl) fun hi => List.mem_cons_of_mem _ (next hw ?_ hi)
      obtain ⟨d, rfl, _⟩ | rfl := hwork <;> simp
  | count hw =>
      refine keep (same rfl) fun hi => ?_
      have hi := next hw (by simp) hi
      dsimp only
      split
      · exact List.mem_cons_of_mem _ hi
      · exact hi
  | @endTask j e rest hw he ht =>
      refine ⟨hlost, fun {i f} hf ha => ?_⟩
      obtain ⟨rfl, rfl⟩ | ⟨hij, hf⟩ := getElem?_set_cases hf
      · exact absurd ha (Entry.not_afoot_ended e)
      · have hi := hp.ending hf ha
        rw [hw] at hi
        have hi := (List.mem_cons.mp hi).resolve_left fun heq => hij (Work.endTask.inj heq)
        exact List.mem_cons_of_mem _ (List.mem_cons_of_mem _ hi)
  | hear => exact keep (same rfl) fun hi => List.mem_cons_of_mem _ (List.mem_cons_of_mem _ hi)
  | begin hw he hc =>
      have := hp.ending he (.inr ⟨_, hc⟩)
      simp [hw] at this
  | lead hw => exact keep (same rfl) fun hi => by simp [hw] at hi
  | yield hw hends he _ hy =>
      refine keep (set he rfl hy.afoot) (next hw ?_)
      rintro i rfl
      cases hends
  | refuse kind hw hd =>
      exact keep (append rfl (Entry.not_afoot_refused kind)) fun hi =>
        List.mem_append_right _ (idle hw hd hi)
  | read seq body _ hw hd =>
      exact keep (append rfl (Entry.not_afoot_queued .read seq body)) fun hi =>
        List.mem_append_right _ (idle hw hd hi)
  | write seq body _ hw hd =>
      exact keep (append rfl (Entry.not_afoot_queued .write seq body)) fun hi =>
        List.mem_append_right _ (idle hw hd hi)
  | lose hw => exact keep (same rfl) fun hi => by simp [hw] at hi

/-- At rest nobody is afoot. -/
theorem Stripped.not_afoot (h : s.Stripped) (hw : s.work = []) (he : s.entries[i]? = some e) :
    ¬e.Afoot := by
  intro ha
  simpa [hw] using h.ending he ha

theorem Stripped.over (h : s.Stripped) (hw : s.work = []) (he : s.entries[i]? = some e) :
    e.task = .unspawned ∨ e.task = .ended := by
  have ha : e.isAlive ≠ true := fun ha => h.not_afoot hw he (.inl ha)
  cases ht : e.task <;> simp_all [Entry.isAlive]

/-- No callback begins once the runtime is lost. -/
theorem Rule.starts_of_stripped (h : Rule s t) (hs : s.Coherent) (hp : s.Stripped) :
    t.starts = s.starts := by
  obtain ⟨hstarts, _⟩ | ⟨i, _, e, body, hw, he, hb, _⟩ := h.begun hs
  · exact hstarts
  · exact absurd (.inr ⟨body, hb⟩) (hp.not_afoot hw he)

/-- At rest, a callback that may begin on a live runtime has a task that is alive. -/
theorem Awake.isAlive_of_offered (h : s.Awake) (hs : s.Sound) (hw : s.work = [])
    (hl : s.live = true) (he : s.entries[i]? = some e) {body : Body D}
    (hb : e.callback = .offered body) : e.isAlive = true := by
  have hentry := hs.entry he
  have hc : e.Coherent := hentry.coherent
  apply Decidable.byContradiction
  intro ha
  have hover : e.task = .unspawned ∨ e.task = .ended := by
    cases ht : e.task <;> simp_all [Entry.isAlive]
  have hr : e.stage ≠ .refused := fun hr => by simp [(hc.refused hr).2.2] at hb
  have hq : e.stage ≠ .queued := fun hq => by
    obtain ⟨_, hheld⟩ := (hc.queued hq).2.2
    simp [hheld] at hb
  have hv := h.vacated_of_unqueued hs hw he hover hr hq
  simpa [hb, Callback.isOver] using hentry.isOver hl (hs.vacated_of_isVacated he hv)

/-- When a runtime goes away, all its tasks are to be ended. -/
theorem Awake.stripped (h : s.Awake) (hs : s.Sound) (hw : s.work = []) (hl : s.live = true)
    (ht : tasks.Perm s.aliveTasks) : ((Move.lose tasks).begin s).Stripped := by
  have hbegin : (Move.lose tasks).begin s =
      { s with live := false, ready := {} }.push (tasks.map .endTask) := if_pos ⟨hl, ht⟩
  rw [hbegin]
  refine ⟨rfl, fun {i e} he ha => ?_⟩
  have he : s.entries[i]? = some e := he
  have halive : e.isAlive = true := by
    obtain ha | ⟨body, hb⟩ := ha
    · exact ha
    · exact h.isAlive_of_offered hs hw hl he hb
  have hi : i ∈ tasks := ht.mem_iff.mpr (mem_aliveTasks.mpr ⟨e, he, halive⟩)
  exact List.mem_append_left _ (List.mem_map.mpr ⟨i, hi, rfl⟩)

/-- Whatever comes to a machine whose runtime is lost, no callback begins. -/
theorem Run.stripped (h : Run s t) (hs : s.Valid) (hp : s.Stripped) :
    t.Stripped ∧ t.starts = s.starts :=
  (h.induct (p := fun u => u.Stripped ∧ u.starts = s.starts) hs ⟨hp, rfl⟩ fun hu hp hr =>
    ⟨hr.stripped hu.sound.isCoherent hp.1,
      (hr.starts_of_stripped hu.sound.isCoherent hp.1).trans hp.2⟩).2

/-- When the runtime is lost, in whatever order it drops its tasks, and whatever is done later, no
callback begins any more, and what is set off comes to an end. Whenever it has, every request has
settled and every slot has vacated. -/
theorem settled_after_loss (h : Reachable (Permits.ofBound bound) s) (hw : s.work = [])
    (hl : s.live = true) (ht : tasks.Perm s.aliveTasks)
    (hu : Run ((Move.lose tasks).begin s) u) :
    u.starts = s.starts ∧ (∃ n, (u.steps n).work = []) ∧
    (u.work = [] → ∀ {i : Nat} {e : Entry D}, u.entries[i]? = some e →
      e.request.status.isTerminal = true ∧
        (e.stage ≠ .refused → e.stage = .vacated ∧ e.isVacated = true)) := by
  have hlose : Step s ((Move.lose tasks).begin s) := .move _ hw
  have hvalid : ((Move.lose tasks).begin s).Valid := Run.valid (.single hlose) h.valid
  have hstarts : ((Move.lose tasks).begin s).starts = s.starts := by
    rw [Move.begin, if_pos ⟨hl, ht⟩]
    rfl
  obtain ⟨hstripped, hsame⟩ := Run.stripped hu hvalid (h.awake.stripped h.valid.sound hw hl ht)
  obtain ⟨n, hn⟩ := exists_steps_eq_drain u
  refine ⟨hsame.trans hstarts, ⟨n, hn ▸ work_drain u⟩, fun huw {i e} he => ?_⟩
  have hreach : Reachable (Permits.ofBound bound) u := .trans h (.head hlose hu)
  have hs : u.Valid := hreach.valid
  have hvacated : e.stage ≠ .refused → e.isVacated = true := fun hr =>
    (vacated_eq_true_iff.mp (hreach.awake.vacated_of_over hs huw (hstripped.over huw)
      ⟨e, he, rfl, hr⟩)).of_entry he
  exact ⟨hs.settled_of_vacated huw he hvacated, fun hr =>
    ⟨hs.sound.vacated_of_isVacated he (hvacated hr), hvacated hr⟩⟩

/-- A read that parked, a read that waits for its permit, a write that waits for both, and a read
that is submitted when the write settles. -/
def laden : Machine Unit :=
  (start (Permits.ofBound (some 1))).play 17 [.submit .read { mode := .hold }, .poll 0, .advance 0,
    .submit .read {}, .poll 1, .submit .write {},
    .onSettled 2 () [.submit .read .straight [] [] .nothing]]

theorem settled_after_loss_laden : laden.work = [] ∧ laden.live = true ∧
    [1, 0].Perm laden.aliveTasks ∧ laden.At 2 (·.stage = .queued) ∧
    (laden.dropTasks [1, 0]).starts = [0] ∧
    ((laden.dropTasks [1, 0]).At 2 fun e =>
      e.request.status.isTerminal = true ∧ e.isVacated = true) ∧
    (laden.dropTasks [1, 0]).At 3 fun e =>
      e.request.status.isTerminal = true ∧ e.isVacated = true := by
  have hreach : Reachable (Permits.ofBound (some 1)) laden := run_play 17 _ _
  have halive : laden.aliveTasks = [0, 1] := rfl
  have hperm : [1, 0].Perm laden.aliveTasks := halive ▸ .swap 0 1 []
  have hdrop : laden.dropTasks [1, 0] = ((Move.lose [1, 0]).begin laden).drain := by
    rw [Move.begin, if_pos ⟨rfl, hperm⟩]
    rfl
  have hsteps : laden.dropTasks [1, 0] =
      ({ laden with live := false, ready := {} }.push ([1, 0].map .endTask)).steps 50 :=
    drain_eq_steps 50 _ rfl
  obtain ⟨hstarts, _, hsettled⟩ := settled_after_loss hreach rfl rfl hperm (run_drain _)
  rw [← hdrop] at hstarts hsettled
  have hrest : (laden.dropTasks [1, 0]).work = [] := work_drain _
  have hentries : (laden.dropTasks [1, 0]).At 2 (·.stage ≠ .refused) ∧
      (laden.dropTasks [1, 0]).At 3 (·.stage ≠ .refused) := by
    rw [hsteps]
    exact ⟨⟨_, rfl, by decide⟩, _, rfl, by decide⟩
  obtain ⟨⟨e, he, hr⟩, f, hf, hq⟩ := hentries
  exact ⟨rfl, rfl, hperm, ⟨_, rfl, rfl⟩, hstarts.trans rfl,
    ⟨e, he, (hsettled hrest he).1, ((hsettled hrest he).2 hr).2⟩,
    f, hf, (hsettled hrest hf).1, ((hsettled hrest hf).2 hq).2⟩

end Machine

end RequestScheduler
