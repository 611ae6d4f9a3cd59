import RequestScheduler.Proofs.Soundness

/-!
# Work follows the rules

Whatever a sound machine does when it carries out a work item is a sequence of elementary changes.
There is one lemma for each operation of the machine, and `rules_exec` is assembled from them.
-/

namespace RequestScheduler

namespace Machine

variable {D : Type} {s t u : Machine D} {i : Nat} {e f : Entry D} {w : Work D}
  {done items after rest : List (Work D)}

theorem Touches.refl (s : Machine D) : s.Touches s :=
  ⟨rfl, fun h => ⟨_, h, .refl _⟩, rfl, rfl, rfl, rfl⟩

/-- A machine that differs in what the rules leave out. -/
theorem Touches.same (he : t.entries = s.entries) (hg : t.gates = s.gates)
    (ha : t.admission = s.admission) (hl : t.live = s.live) (hs : t.starts = s.starts) :
    s.Touches t :=
  ⟨by rw [he], fun h => ⟨_, he ▸ h, .refl _⟩, hg, ha, hl, hs⟩

/-- One entry is touched. -/
theorem Touches.put (he : s.entries[i]? = some e) (hf : e.Touch f)
    (ht : t.entries = s.entries.set i f) (hg : t.gates = s.gates)
    (ha : t.admission = s.admission) (hl : t.live = s.live) (hs : t.starts = s.starts) :
    s.Touches t where
  length := by simp [ht]
  entry {j a} hj := by
    rw [ht]
    by_cases hij : i = j
    · subst hij
      obtain rfl := Option.some.inj (he.symm.trans hj)
      exact ⟨f, getElem?_set_of_some he, hf⟩
    · exact ⟨a, by rw [List.getElem?_set_ne hij, hj], .refl a⟩
  gates := hg
  admission := ha
  live := hl
  starts := hs

theorem Touches.trans (h₁ : s.Touches t) (h₂ : t.Touches u) : s.Touches u where
  length := h₂.length.trans h₁.length
  entry h := by
    obtain ⟨f, hf, hef⟩ := h₁.entry h
    obtain ⟨g, hg, hfg⟩ := h₂.entry hf
    exact ⟨g, hg, hef.trans hfg⟩
  gates := h₂.gates.trans h₁.gates
  admission := h₂.admission.trans h₁.admission
  live := h₂.live.trans h₁.live
  starts := h₂.starts.trans h₁.starts

/-- Nothing that the rules speak of has changed, the list of work included. -/
theorem Touches.rule (h : s.Touches t) (hw : t.work = s.work) : Rule s t :=
  .touch h (List.nil_append s.work).symm (hw.trans (List.nil_append s.work).symm)
    (List.forall_mem_nil _) (List.forall_mem_nil _)

/-- Idle work was done, and all that it did to entries was to touch them. -/
theorem Rule.idle (hs : s.work = done ++ rest) (hd : ∀ w ∈ done, w.isIdle)
    (hi : ∀ w ∈ items, w.isIdle) (h : Touches { s with work := rest } t)
    (ht : t.work = items ++ rest) : Rule s t :=
  .touch ⟨h.length, h.entry, h.gates, h.admission, h.live, h.starts⟩ hs ht hd hi

theorem rules_cancelThen (h : s.work = done ++ rest) (he : s.entries[i]? = some e)
    (hc : Cancels i e done after) : Rules s ({ s with work := rest }.cancelThen i after) := by
  have := Rule.cancel h he hc
  simpa only [cancelThen, trip, he, put, push] using Relation.ReflTransGen.single this

theorem rules_cancelAll (h : s.work = done ++ rest) (hd : ∀ w ∈ done, w.isIdle)
    (ha : ∀ w ∈ after, w.isIdle) : Rules s ({ s with work := rest }.cancelAll after) :=
  .tail (.single .prune) (.collect h hd ha)

theorem rules_snapshot (h : s.work = done ++ rest) (hd : ∀ w ∈ done, w.isIdle) :
    Rules s ({ s with work := rest }.snapshot).2 :=
  have hn : ∀ w ∈ ([] : List (Work D)), w.isIdle = true := List.forall_mem_nil _
  have hw : { s with admission := s.admission.prune s.vacated }.work = done ++ rest := h
  .tail (.single .prune) (.idle hw hd hn (.same rfl rfl rfl rfl rfl) rfl)

theorem rules_onSettled {tag : D} {effects : List (Effect D)} (h : s.work = done ++ rest)
    (hd : ∀ w ∈ done, w.isIdle) (ha : ∀ w ∈ after, w.isIdle) :
    Rules s ({ s with work := rest }.onSettled i tag effects after) := by
  unfold onSettled
  dsimp only
  split
  · exact .single (.idle h hd ha (.same rfl rfl rfl rfl rfl) rfl)
  · rename_i e he
    split
    · have hl : ∀ w ∈ Work.run (.react tag effects) :: after, w.isIdle := by
        simpa [Work.isIdle] using ha
      exact .single (.idle h hd hl (.same rfl rfl rfl rfl rfl) rfl)
    · exact .single (.idle h hd ha (.put he (.register tag effects) rfl rfl rfl rfl rfl) rfl)

theorem rules_submit {kind : Kind} {body : Body D} (h : s.work = done ++ rest)
    (hd : ∀ w ∈ done, w.isIdle) (ha : ∀ w ∈ after, w.isIdle) :
    Rules s ({ s with work := rest }.submit kind body after) := by
  have hand {l : List (Work D)} (hl : ∀ w ∈ l, w.isIdle) (n : Nat) :
      ∀ w ∈ Work.handOver n :: l, w.isIdle := by
    simpa [Work.isIdle] using hl
  unfold submit
  dsimp only
  split
  · rename_i hc
    exact .tail (.single (.refuse kind h hd (hand ha _) hc))
      (Touches.rule (.same rfl rfl rfl rfl rfl) rfl)
  rename_i hc
  have hc : s.admission.closed = false := by simpa using hc
  have pruned : Rules s { s with admission := s.admission.prune s.vacated } := .single .prune
  have hs : { s with admission := s.admission.prune s.vacated }.work = done ++ rest := h
  cases kind with
  | read =>
      have admitted {l : List (Work D)} (hl : ∀ w ∈ l, w.isIdle) := pruned.tail (.read
        s.admission.nextSeq.1 body (s.admission.nextSeq.2.admitRead s.vacated s.entries.length).2
        hs hd hl hc hc rfl rfl rfl)
      have hn : (s.admission.nextSeq.2.prune s.vacated).currentWrite =
          (s.admission.prune s.vacated).currentWrite := rfl
      have hv : Machine.vacated { s with work := rest } = s.vacated := rfl
      cases hw : (s.admission.prune s.vacated).currentWrite with
      | none =>
          have hl : ∀ w ∈ Work.note (.submitRead s.admission.nextSeq.1) ::
              .handOver s.entries.length :: after, w.isIdle := by
            simpa [Work.isIdle] using ha
          simp only [Admission.admitRead, hv, hn, hw]
          exact (admitted hl).tail (Touches.rule
            (.same rfl rfl (by simp [Admission.admitRead, hn, hw]) rfl rfl) (by simp [hw]))
      | some x =>
          simp only [Admission.admitRead, hv, hn, hw]
          exact (admitted (hand ha s.entries.length)).tail (Touches.rule
            (.same rfl rfl (by simp [Admission.admitRead, hn, hw]) rfl rfl) (by simp [hw]))
  | write =>
      exact (pruned.tail (.write s.admission.nextSeq.1 body
        (s.admission.nextSeq.2.admitWrite s.vacated s.entries.length).2 hs hd (hand ha _)
        hc hc rfl rfl rfl)).tail (Touches.rule (.same rfl rfl rfl rfl rfl) rfl)

/-- What a client's code does. -/
theorem rules_perform {a : Effect D} (h : s.work = done ++ rest) (hd : ∀ w ∈ done, w.isIdle) :
    Rules s ({ s with work := rest }.perform a) := by
  have hn : ∀ w ∈ ([] : List (Work D)), w.isIdle = true := List.forall_mem_nil _
  have quiet {t : Machine D} (ht : Touches { s with work := rest } t) (hw : t.work = rest) :
      Rules s t := .single (.idle h hd hn ht hw)
  have one {w : Work D} (hw : w.isIdle) : ∀ v ∈ [w], v.isIdle := by simpa using hw
  cases a with
  | set | add | mul | log | status => exact quiet (.same rfl rfl rfl rfl rfl) rfl
  | submit kind mode pre post result => exact rules_submit h hd (one rfl)
  | cancel i =>
      unfold perform
      dsimp only
      split
      · exact quiet (.same rfl rfl rfl rfl rfl) rfl
      · rename_i e he
        exact rules_cancelThen h (Option.filter_eq_some_iff.mp he).1 (.client hd (one rfl))
  | cancelAll => exact rules_cancelAll h hd (one rfl)
  | snapshot =>
      exact (rules_snapshot h hd).tail (Touches.rule (.same rfl rfl rfl rfl rfl) rfl)
  | onSettled i tag effects =>
      unfold perform
      dsimp only
      split
      · exact quiet (.same rfl rfl rfl rfl rfl) rfl
      · exact rules_onSettled h hd (one rfl)

theorem rules_settle {o : Outcome (Value D)} (h : s.work = .settle i o :: rest) :
    Rules s ({ s with work := rest }.settle i o) := by
  unfold settle
  dsimp only
  split
  · rename_i he
    exact .single (.pass h (by simp [IsDone, isPending, he]))
  · rename_i e he
    split
    · rename_i hset
      exact .single (.pass h (by simp [IsDone, isPending, he, hset]))
    · refine .tail (.single (.publish h he)) (Touches.rule (.same rfl rfl rfl rfl ?_) rfl)
      simp [starts, List.filterMap_append, Event.start?]

theorem rules_skip {w : Work D} (h : s.work = w :: rest) (hw : w = .skip i ∨ w = .dispatch i)
    (ht : ∀ e, s.entries[i]? = some e → e.stage = .queued → e.request.tripped = true) :
    Rules s ({ s with work := rest }.skip i) := by
  have pass (hd : ∀ e, s.entries[i]? = some e → e.stage ≠ .queued) :
      Rules s { s with work := rest } :=
    .single (.pass h (by obtain rfl | rfl := hw <;> exact hd))
  unfold skip
  dsimp only
  split
  · rename_i he
    exact pass (by simp [he])
  · rename_i e he
    split
    · rename_i hq
      exact .tail (.single (.skip h hw he hq (ht e he hq)))
        (Touches.rule (.same rfl rfl rfl rfl rfl) rfl)
    · rename_i hq
      exact pass (by simpa [he] using hq)

theorem rules_openVacancy (hs : s.Sound) (h : s.work = .openVacancy i :: rest) :
    Rules s ({ s with work := rest }.openVacancy i []) := by
  obtain ⟨⟨e, he, hq⟩, _⟩ := hs.work (w := .openVacancy i) (by simp [h])
  unfold openVacancy
  simp only [he]
  split
  · rename_i hv
    exact .single (.pass h (vacated_eq_true_iff.mpr ⟨e, he, hv⟩))
  · rename_i hv
    have := Rule.vacate h he (by simpa [Entry.isVacated] using hv) (.inl ⟨rfl, hq⟩)
      (List.forall_mem_nil _)
    rw [← hq] at this
    exact .single this

/-- A vacancy opens only when the slot has left its other stages. -/
theorem Sound.vacated_of_isVacated (hs : s.Sound) (he : s.entries[i]? = some e)
    (hv : e.isVacated = true) : e.stage = .vacated := by
  have hc := (hs.entry he).coherent
  cases hq : e.stage with
  | refused => simp [(hc.refused hq).2.1] at hv
  | queued => simp [(hc.queued hq).2.1] at hv
  | dispatched => simp [(hc.dispatched hq).2] at hv
  | vacated => rfl

theorem rules_vacate (hs : s.Sound) (h : s.work = .vacate i :: rest) :
    Rules s ({ s with work := rest }.vacate i) := by
  obtain ⟨⟨e, he, hk, hc, _⟩, _⟩ := hs.work (w := .vacate i) (by simp [h])
  have hl := (List.getElem?_eq_some_iff.mp he).1
  unfold vacate openVacancy
  simp only [he, put, List.getElem?_set_self hl]
  split
  · rename_i hv
    have hq := hs.vacated_of_isVacated he hv
    have hset : s.entries.set i { e with stage := .vacated } = s.entries := by
      rw [← hq]
      obtain ⟨hl, rfl⟩ := List.getElem?_eq_some_iff.mp he
      exact List.set_getElem_self hl
    simp only [hset]
    exact .single (.pass h (vacated_eq_true_iff.mpr ⟨e, he, hv⟩))
  · rename_i hv
    have hn : ∀ w ∈ [Work.note (.vacate e.seq e.kind)], (w : Work D).isIdle := by
      simp [Work.isIdle]
    have := Rule.vacate h he (by simpa [Entry.isVacated] using hv) (.inr ⟨rfl, hk, hc⟩) hn
    simpa [List.set_set] using Relation.ReflTransGen.single this

theorem rules_dispatch (h : s.work = .dispatch i :: rest) :
    Rules s ({ s with work := rest }.dispatch i) := by
  unfold dispatch
  dsimp only
  split
  · rename_i he
    exact .single (.pass h (by simp [IsDone, he]))
  rename_i e he
  split
  · rename_i hq
    split
    · rename_i ht
      apply rules_skip h (.inr rfl)
      intro a ha _
      exact Option.some.inj (he.symm.trans ha) ▸ ht
    rename_i ht
    have ht : e.request.tripped = false := by simpa using ht
    split
    · rename_i hl
      exact .tail (.single (.spawn h he hq ht (.inl ⟨hl, rfl, rfl⟩)))
        (Touches.rule (.same rfl rfl rfl rfl rfl) rfl)
    · rename_i hl
      exact .tail (.single (.spawn h he hq ht (.inr ⟨by simpa using hl, rfl, rfl⟩)))
        (Touches.rule (.same rfl rfl rfl rfl rfl) rfl)
  · rename_i hq
    exact .single (.pass h (by simpa [IsDone, he] using hq))

theorem rules_await {g d : Nat} (hs : s.Sound) (h : s.work = .await g d :: rest) :
    Rules s ({ s with work := rest }.await g d) := by
  obtain ⟨e, he, _⟩ := hs.work (w := .await g d) (by simp [h])
  unfold await
  simp only [he]
  split
  · rename_i hv
    exact .single (.forward h (.inl ⟨d, rfl, vacated_eq_true_iff.mpr ⟨e, he, hv⟩⟩))
  · rename_i hv
    exact .single (.enrol h he (by simpa [Entry.isVacated] using hv))

theorem rules_release {g : Nat} (h : s.work = .release g :: rest) :
    Rules s ({ s with work := rest }.release g) := by
  unfold release
  dsimp only
  split
  · rename_i hg
    exact .single (.pass h hg)
  · rename_i gate hg
    exact .single (.count h hg)

/-- A permit that comes back is handed on. -/
theorem touches_putPermit (s : Machine D) : s.Touches s.putPermit ∧ s.putPermit.work = s.work := by
  unfold putPermit hand
  split
  · exact ⟨.refl s, rfl⟩
  split
  · exact ⟨.same rfl rfl rfl rfl rfl, rfl⟩
  dsimp only
  split
  · exact ⟨.same rfl rfl rfl rfl rfl, rfl⟩
  rename_i e he
  split
  · rename_i hq
    exact ⟨.put he (.hand hq) rfl rfl rfl rfl rfl, rfl⟩
  · exact ⟨.same rfl rfl rfl rfl rfl, rfl⟩

theorem rules_endTask (hs : s.Sound) (h : s.work = .endTask i :: rest) :
    Rules s ({ s with work := rest }.endTask i) := by
  obtain ⟨e, he, ht, _⟩ := hs.work (w := .endTask i) (by simp [h])
  have hend := Rule.endTask h he ht
  unfold endTask
  simp only [he]
  generalize hu : put i { e with task := .ended, callback := e.callback.close }
    { s with work := rest, ready := s.ready.remove i } = u
  -- What becomes of the permit of the task touches another entry at most.
  have last {v : Machine D} (hv : u.Touches v) (hw : v.work = u.work) :
      Rules s (v.push [.settle i (.error .cancelled), .vacate i]) := by
    subst hu
    exact .tail (.single hend) (Touches.rule
      ⟨hv.length, hv.entry, hv.gates, hv.admission, hv.live, hv.starts⟩ (by simp [push, hw, put]))
  split
  · exact last (touches_putPermit u).1 (touches_putPermit u).2
  · exact last (touches_putPermit u).1 (touches_putPermit u).2
  · exact last (.same rfl rfl rfl rfl rfl) rfl
  · exact last (.refl u) rfl

/-- A callback parks or returns. -/
theorem rules_yield (hs : s.Sound) (h : s.work = w :: rest) (hw : w.ends? = some i) :
    Rules s (exec w { s with work := rest }) := by
  obtain ⟨e, he, hr⟩ := hs.performing (w := w) (by simp [h]) hw
  cases w with
  | park j body =>
      obtain rfl := Option.some.inj hw
      simp only [exec, park, he]
      exact .single (.yield h hw he hr (.park body))
  | finish j result =>
      obtain rfl := Option.some.inj hw
      simp only [exec, finish, he]
      split
      · exact .tail (.single (.yield h hw he hr (.answer _)))
          (Touches.rule (.same rfl rfl rfl rfl rfl) rfl)
      · exact .tail (.single (.yield h hw he hr .spend))
          (Touches.rule (.same rfl rfl rfl rfl rfl) rfl)
  | _ => cases hw

/-- Carrying out a work item follows the rules. -/
theorem rules_exec (hs : s.Sound) (h : s.work = w :: rest) :
    Rules s (exec w { s with work := rest }) := by
  have hw : w.Sound s := hs.work (by simp [h])
  have one {a b : Work D} (ha : a.isIdle) (hb : b ∈ [a]) : b.isIdle :=
    List.mem_singleton.mp hb ▸ ha
  have hn : ∀ w ∈ ([] : List (Work D)), w.isIdle = true := List.forall_mem_nil _
  have quiet {t : Machine D} (hi : w.isIdle) (ht : Touches { s with work := rest } t)
      (hw : t.work = rest) : Rules s t := .single (.idle h (fun _ => one hi) hn ht hw)
  cases w with
  | perform a => exact rules_perform h fun _ => one rfl
  | emit e =>
      refine quiet (by simpa [Work.isIdle, Work.Sound] using hw) (.same rfl rfl rfl rfl ?_) rfl
      simp [starts, exec, emit, show e.start? = none from hw]
  | note => exact quiet rfl (.same rfl rfl rfl rfl rfl) rfl
  | run k =>
      cases k with
      | release g => exact .single (.forward h (.inr rfl))
      | react tag effects =>
          refine .single (.idle h (fun _ => one rfl) (fun v hv => ?_)
            (.same rfl rfl rfl rfl rfl) rfl)
          obtain ⟨a, _, rfl⟩ := List.mem_map.mp hv
          rfl
      | announce e => exact absurd rfl (hw e)
  | settle => exact rules_settle h
  | cancelSlot i =>
      obtain ⟨e, he, _⟩ := hw
      exact rules_cancelThen (show s.work = [.cancelSlot i] ++ rest from h) he .slot
  | supersede v x =>
      obtain ⟨⟨e, he, _⟩, f, hf, _⟩ := hw
      simp only [exec, supersede, he, hf]
      refine rules_cancelThen (show s.work = [.supersede v x] ++ rest from h) he
        (.supersede fun a ha => ?_)
      split at ha
      · cases ha
      · exact one rfl ha
  | cancelEach ids total count =>
      cases ids with
      | nil => exact quiet rfl (.same rfl rfl rfl rfl rfl) rfl
      | cons i ids =>
          obtain ⟨e, he, _⟩ := hw i List.mem_cons_self
          exact rules_cancelThen (show s.work = [.cancelEach (i :: ids) total count] ++ rest from h)
            he .each
  | reportTally => exact quiet rfl (.same rfl rfl rfl rfl rfl) rfl
  | skip i =>
      apply rules_skip h (.inl rfl)
      intro e he _
      exact (hw.1.of_entry he).2
  | openVacancy i => exact rules_openVacancy hs h
  | vacate i => exact rules_vacate hs h
  | dispatch i => exact rules_dispatch h
  | chain x ds => exact .single (.chain h)
  | await g d => exact rules_await hs h
  | release g => exact rules_release h
  | endTask i => exact rules_endTask hs h
  | handOver i =>
      simp only [exec, handOver]
      split
      · exact quiet rfl (.same rfl rfl rfl rfl rfl) rfl
      · rename_i e he
        exact quiet rfl (.put he (.hold .held) rfl rfl rfl rfl rfl) rfl
  | park i body => exact rules_yield hs h rfl
  | finish i result => exact rules_yield hs h rfl

end Machine

end RequestScheduler
