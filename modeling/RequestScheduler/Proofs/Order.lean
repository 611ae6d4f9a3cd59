import RequestScheduler.Proofs.Act
import RequestScheduler.Proofs.Gating
import RequestScheduler.Proofs.Moves

/-!
# The order of admission

What the invariants say of runs. A callback begins after everything that its request is to wait for
has vacated and settled (`Cleared`). So the callbacks of opposite kinds run in the order of
admission, and a write that nobody has cancelled runs alone (`write_exclusive`,
`started_in_order`). At rest, a request waits exactly as long as it has to (`queued_iff_waiting`).
-/

namespace RequestScheduler

namespace Machine

variable {D : Type} {s t : Machine D} {permits : Option Permits} {i d v w x : Nat} {e f : Entry D}

/-- The invariants of all runs. -/
structure Valid (s : Machine D) : Prop where
  sound : s.Sound
  recorded : s.Recorded
  superseding : s.Superseding
  prepared : s.Prepared
  closing : s.Closing
  gated : s.Gated

theorem valid_start (permits : Option Permits) : (start permits : Machine D).Valid where
  sound := sound_start permits
  recorded := recorded_start permits
  superseding h := by simpa [start] using h.lt
  prepared h := by simpa [start] using h.lt
  closing h := by simp [start] at h
  gated := gated_start permits

theorem Rule.valid (h : Rule s t) (hs : s.Valid) : t.Valid where
  sound := h.sound hs.sound
  recorded := h.recorded hs.sound hs.recorded
  superseding := h.superseding hs.sound hs.recorded hs.superseding
  prepared := h.prepared hs.sound hs.recorded hs.prepared
  closing := h.closing hs.sound hs.recorded hs.closing
  gated := h.gated hs.sound hs.recorded hs.gated

theorem Rules.valid (h : Rules s t) (hs : s.Valid) : t.Valid := by
  induction h with
  | refl => exact hs
  | tail _ h ih => exact h.valid ih

theorem Rules.grows (h : Rules s t) (hs : s.Valid) : s.Grows t := by
  induction h with
  | refl => exact .refl s
  | tail hst h ih => exact ih.trans (h.grows (Rules.valid hst hs).sound.isCoherent)

/-- What the rules keep of valid machines holds of every state of a run. -/
theorem Run.induct {p : Machine D → Prop} (h : Run s t) (hs : s.Valid) (hp : p s)
    (hr : ∀ {u v : Machine D}, u.Valid → p u → Rule u v → p v) : t.Valid ∧ p t := by
  refine (h.induction (p := fun s => s.Valid ∧ p s) hs.sound ⟨hs, hp⟩ fun _ hu huv => ?_).2
  exact ⟨huv.valid hu.1, hr hu.1 hu.2 huv⟩

theorem Reachable.valid (h : Reachable permits s) : s.Valid :=
  (Run.induct h (valid_start permits) trivial fun _ _ _ => trivial).1

theorem Run.valid (h : Run s t) (hs : s.Valid) : t.Valid :=
  (h.induct hs trivial fun _ _ _ => trivial).1

theorem Run.grows (h : Run s t) (hs : s.Valid) : s.Grows t :=
  (h.induct (p := s.Grows) hs (.refl s) fun hu hg hr => hg.trans (hr.grows hu.sound.isCoherent)).2

/-- What holds at first and is kept by every act of a valid machine holds throughout a run. -/
theorem Run.act_induction {p : Machine D → Prop} (h : Run s t) (hs : s.Valid) (hp : p s)
    (ha : ∀ {u : Machine D} {a : Act D}, u.Valid → p u → a.Enabled u → p (a.apply u)) : p t := by
  induction h with
  | refl => exact hp
  | tail hrun hstep ih =>
      obtain ⟨a, hen, rfl⟩ := step_iff.mp hstep
      exact ha (Run.valid hrun hs) ih hen

theorem Run.gate {g : Nat} {gate : Gate} (h : Run s t) (hs : s.Valid)
    (hg : s.gates[g]? = some gate) : ∃ b, t.gates[g]? = some b ∧ b.slot = gate.slot := by
  refine (h.induct (p := fun u => ∃ b, u.gates[g]? = some b ∧ b.slot = gate.slot) hs
    ⟨gate, hg, rfl⟩ fun _ hb hr => ?_).2
  obtain ⟨b, hb, hslot⟩ := hb
  obtain ⟨c, hc, hcb⟩ := hr.gate hb
  exact ⟨c, hc, hcb.trans hslot⟩

/-- At rest, what is about to settle has settled. -/
theorem Secured.settled (h : s.Secured i) (hw : s.work = []) :
    s.At i (·.request.isSettled = true) :=
  h.resolve_right (by simp [hw])

/-- At rest, a superseded request has settled, and it has vacated or its cancellation was
requested. -/
theorem Superseded.settled (h : s.Superseded x) (hs : s.Valid) (hw : s.work = []) :
    s.At x fun e => e.request.isSettled = true ∧
      (e.isVacated = true ∨ e.request.tripped = true) := by
  obtain hv | ⟨ht, hsec⟩ | ⟨y, hy⟩ := h
  · obtain ⟨e, he, hv⟩ := vacated_eq_true_iff.mp hv
    have hset := ((hs.sound.entry he).vacated hv).settled hw
    exact ⟨e, he, hset.of_entry he, .inl hv⟩
  · obtain ⟨e, he, ht⟩ := ht
    exact ⟨e, he, (hsec.settled hw).of_entry he, .inr ht⟩
  · simp [hw] at hy

/-- At rest, every request before a write has settled. -/
theorem Valid.settled_of_write (h : s.Valid) (hw : s.work = []) {kind : Kind}
    (hx : s.Accepted kind x) (hwr : s.Accepted .write w) (hxw : x < w) :
    s.At x (·.request.isSettled = true) :=
  ((h.superseding hwr hx hxw).settled h hw).imp fun _ he => he.1

/-- What a request whose callback has begun was to wait for: all of it has vacated, and with it
every write before the request has settled. -/
structure ClearedAt (s : Machine D) (x : Nat) : Prop where
  vacated : ∀ {d : Nat}, s.Awaits x d →
    s.vacated d = true ∧ s.At d (·.request.isSettled = true)
  settled : ∀ {v : Nat}, s.Accepted .write v → v < x → s.At v (·.request.isSettled = true)

theorem ClearedAt.grow (h : s.ClearedAt x) (hg : s.Grows t) (hx : x < s.entries.length) :
    t.ClearedAt x where
  vacated ha := by
    obtain ⟨hv, hs⟩ := h.vacated ((awaits_iff hg hx).mp ha)
    exact ⟨vacated_grow hg hv, hs.mono hg (·.isSettled)⟩
  settled hv hvx := (h.settled ((accepted_iff hg (by omega)).mp hv) hvx).mono hg (·.isSettled)

/-- A callback begins in a machine at rest, when nothing holds its request back. -/
theorem Valid.clearedAt (h : s.Valid) (hw : s.work = []) (hx : s.entries[x]? = some e)
    (ht : e.task ≠ .unspawned) : s.ClearedAt x := by
  have vacated {d : Nat} (ha : s.Awaits x d) :
      s.vacated d = true ∧ s.At d (·.request.isSettled = true) := by
    have hv := h.gated.clear ⟨e, hx, ht⟩ ha
    obtain ⟨a, had, hva⟩ := vacated_eq_true_iff.mp hv
    exact ⟨hv, ((h.sound.entry had).vacated hva).settled hw⟩
  refine ⟨vacated, fun {v} hv hvx => ?_⟩
  -- A write settles what came before it, and a read waits for the last write.
  have hstage : e.stage ≠ .refused := fun hr => ht ((h.sound.entry hx).coherent.refused hr).1
  cases hk : e.kind with
  | write => exact h.settled_of_write hw hv ⟨e, hx, hk, hstage⟩ hvx
  | read =>
      obtain ⟨u, hu, hvu⟩ := exists_lastWriteBefore hv hvx
      by_cases hvu' : v = u
      · exact hvu' ▸ (vacated (.inr ⟨⟨e, hx, hk, hstage⟩, hu⟩)).2
      · exact h.settled_of_write hw hv hu.write (by omega)

/-- Whoever has begun was cleared. -/
def Cleared (s : Machine D) : Prop := ∀ {x : Nat}, s.hasBegun x = true → s.ClearedAt x

/-- Whoever has begun after a rule had begun before, or begins now, in a machine at rest that has
handed it to the runtime. -/
theorem Rule.hasBegun_cases (h : Rule s t) (hs : s.Sound) (hx : t.hasBegun x = true) :
    x < s.entries.length ∧
      (s.hasBegun x = true ∨ s.work = [] ∧ s.At x (·.task ≠ .unspawned)) := by
  obtain ⟨f, hf, hbf⟩ := hasBegun_eq_true_iff.mp hx
  cases he : s.entries[x]? with
  | none => simp [h.hasBegun_new he hf] at hbf
  | some e =>
      refine ⟨(List.getElem?_eq_some_iff.mp he).1, ?_⟩
      by_cases hbe : e.callback.hasBegun = true
      · exact .inl (hasBegun_eq_true_iff.mpr ⟨e, he, hbe⟩)
      obtain ⟨_, hsame⟩ | ⟨i, b, a, body, hw, ha, hb, rfl⟩ := h.begun hs.isCoherent
      · exact absurd ((hsame he hf).symm.trans hbf) hbe
      · obtain ⟨rfl, rfl⟩ | ⟨_, hf⟩ := getElem?_set_cases hf
        · exact .inr ⟨hw, a, ha, (hs.entry ha).coherent.spawned hb⟩
        · obtain rfl := Option.some.inj (he.symm.trans hf)
          exact absurd hbf hbe

theorem Rule.cleared (h : Rule s t) (hs : s.Valid) (hc : s.Cleared) : t.Cleared := by
  intro x hx
  obtain ⟨hlt, hx⟩ := h.hasBegun_cases hs.sound hx
  suffices s.ClearedAt x from this.grow (h.grows hs.sound.isCoherent) hlt
  obtain hx | ⟨hw, e, he, ht⟩ := hx
  · exact hc hx
  · exact hs.clearedAt hw he ht

theorem Reachable.cleared (h : Reachable permits s) : s.Cleared :=
  (Run.induct (p := Cleared) h (valid_start permits)
    (fun hx => by simp [hasBegun, start] at hx) fun hu hc hr => hr.cleared hu hc).2

/-- On a live runtime the callback of a vacated slot is over. -/
theorem Valid.isOver (h : s.Valid) (hl : s.live = true) (hv : s.vacated i = true) :
    s.At i (·.callback.isOver = true) := by
  obtain ⟨e, he, hv⟩ := vacated_eq_true_iff.mp hv
  exact ⟨e, he, (h.sound.entry he).isOver hl (h.sound.vacated_of_isVacated he hv)⟩

/-- Whoever has begun was admitted. -/
theorem Valid.accepted (h : s.Valid) (he : s.entries[i]? = some e)
    (hb : e.callback.hasBegun = true) : s.Accepted e.kind i := by
  have hc : e.Coherent := (h.sound.entry he).coherent
  exact ⟨e, he, rfl, fun hr => hc.begun hb (hc.refused hr).1⟩

/-- On a live runtime a slot is occupied as long as its callback runs. -/
theorem Valid.not_vacated (h : s.Valid) (hl : s.live = true) (he : s.entries[i]? = some e)
    (hr : e.callback.isRunning = true) : s.vacated i ≠ true := by
  intro hv
  have := (h.isOver hl hv).of_entry he
  simp [Callback.isOver_of_isRunning hr] at this

/-- A callback that is over is not called again. -/
theorem Run.count_starts (h : Run s t) (hs : s.Valid) (hi : s.At i (·.callback.isOver = true)) :
    t.starts.count i = s.starts.count i := by
  obtain ⟨e, he, ho⟩ := hi
  obtain ⟨f, hf, hef⟩ := (h.grows hs).entry he
  have hbegun : f.callback.hasBegun = e.callback.hasBegun := by
    cases hc : e.callback with
    | spent => rw [hef.spent hc]
    | dropped => rw [hef.dropped hc]
    | _ => simp [hc, Callback.isOver] at ho
  rw [(h.valid hs).sound.starts, hs.sound.starts, hasBegun, hasBegun, he, hf]
  simp only [hbegun]

/-- A callback that was given up never begins. -/
theorem Run.not_start {b : Bool} (h : Run s t) (hs : s.Valid)
    (hx : s.At x (·.callback = .dropped)) : .start x b ∉ t.events := by
  intro hstart
  obtain ⟨f, hf, hd⟩ := hx.mono (h.grows hs) (·.dropped)
  have hpos : 0 < t.starts.count x :=
    List.count_pos_iff.mpr (List.mem_filterMap.mpr ⟨_, hstart, rfl⟩)
  rw [(h.valid hs).sound.starts, hasBegun, hf] at hpos
  simp [hd, Callback.hasBegun] at hpos

/-- A settled request whose callback runs was cancelled. -/
theorem Valid.cancelled_of_isRunning (h : s.Valid) (he : s.entries[i]? = some e)
    (hr : e.callback.isRunning = true) (hs : e.request.isSettled = true) :
    e.request.status = .cancelled := by
  rw [Request.isSettled, ← Cell.isSome_value?, Option.isSome_iff_exists] at hs
  obtain ⟨o, ho⟩ := hs
  obtain rfl | hspent | hrefused := (h.sound.entry he).coherent.outcome o ho
  · exact Request.status_of_value? ho
  · simp [hspent, Callback.isRunning] at hr
  · have := h.accepted he (Callback.hasBegun_of_isRunning hr)
    exact absurd hrefused (this.of_entry he).2

/-- Nobody begins after a write that is pending. -/
theorem Cleared.le_of_pending (hc : s.Cleared) (hx : s.hasBegun x = true)
    (hw : s.Accepted .write w) (he : s.entries[w]? = some e) (hp : e.request.status = .pending) :
    x ≤ w := by
  apply Nat.le_of_not_lt
  intro hwx
  have := ((hc hx).settled hw hwx).of_entry he
  simp [(Request.status_eq_pending_iff _).mp hp] at this

/-- While the callback of a write performs that nobody has cancelled, no read performs, and only
cancelled writes from before it do. -/
theorem write_exclusive (h : Reachable permits s) (hl : s.live = true)
    (hw : s.At w fun e => e.kind = .write ∧ e.callback.isRunning = true ∧
      e.request.status = .pending) :
    (∀ {r : Nat} {e : Entry D}, s.entries[r]? = some e → e.kind = .read →
      e.callback.isRunning = false) ∧
    ∀ {x : Nat} {e : Entry D}, s.entries[x]? = some e → x ≠ w → e.callback.isRunning = true →
      e.kind = .write ∧ x < w ∧ e.request.status = .cancelled := by
  have hs := h.valid
  obtain ⟨a, ha, hwrite, hrun, hpending⟩ := hw
  have hbw := Callback.hasBegun_of_isRunning hrun
  have haw : s.Accepted .write w := hwrite ▸ hs.accepted ha hbw
  have hcw := h.cleared (hasBegun_eq_true_iff.mpr ⟨a, ha, hbw⟩)
  have other {x : Nat} {e : Entry D} (he : s.entries[x]? = some e) (hx : x ≠ w)
      (hr : e.callback.isRunning = true) :
      e.kind = .write ∧ x < w ∧ e.request.status = .cancelled := by
    have hbx := Callback.hasBegun_of_isRunning hr
    have hax := hs.accepted he hbx
    have hle := Cleared.le_of_pending h.cleared (hasBegun_eq_true_iff.mpr ⟨e, he, hbx⟩) haw ha
      hpending
    have hlt : x < w := Nat.lt_of_le_of_ne hle hx
    cases hk : e.kind with
    | read =>
        have hv := (hcw.vacated (.inl ⟨haw, hk ▸ hax, hlt⟩)).1
        exact absurd hv (hs.not_vacated hl he hr)
    | write =>
        have hset := (hcw.settled (hk ▸ hax) hlt).of_entry he
        exact ⟨rfl, hlt, hs.cancelled_of_isRunning he hr hset⟩
  refine ⟨?_, other⟩
  intro r e he hread
  apply Bool.eq_false_iff.mpr
  intro hr
  have hrw : r ≠ w := by
    rintro rfl
    obtain rfl := Option.some.inj (ha.symm.trans he)
    cases hwrite.symm.trans hread
  cases hread.symm.trans (other he hrw hr).1

/-- A write that parked, and a later one that superseded it and performs now. -/
def overtaken : Machine Unit :=
  (start none).play 8 [.submit .write { mode := .hold }, .poll 0, .advance 0,
    .submit .write { mode := .hold }, .poll 1, .advance 1]

theorem write_exclusive_overtaken : overtaken.live = true ∧
    (overtaken.At 1 fun e => e.kind = .write ∧ e.callback.isRunning = true ∧
      e.request.status = .pending) ∧
    overtaken.At 0 fun e => e.callback.isRunning = true ∧ e.request.status = .cancelled := by
  have hw : overtaken.At 1 fun e => e.kind = .write ∧ e.callback.isRunning = true ∧
      e.request.status = .pending := ⟨_, rfl, rfl, rfl, rfl⟩
  have hlive : overtaken.live = true := rfl
  obtain ⟨_, hothers⟩ := write_exclusive (run_play 8 _ (start none)) hlive hw
  exact ⟨hlive, hw, _, rfl, rfl, (hothers (x := 0) rfl (by decide) rfl).2.2⟩

/-- A callback begins in the order of admission as far as requests of the other kind go. Before a
write, every read is over for good; before a read, the last write has vacated and all have
settled. -/
theorem started_in_order {b : Bool} (h : Reachable permits s) (hl : s.live = true)
    (hx : .start x b ∈ s.events) :
    (s.Accepted .write x → ∀ {r : Nat}, r < x → s.Accepted .read r →
      (s.At r fun e => e.request.isSettled = true ∧ e.isVacated = true ∧
        e.callback.isOver = true) ∧
      ∀ {t : Machine D}, Run s t → t.starts.count r = s.starts.count r) ∧
    (s.Accepted .read x →
      (∀ {w : Nat}, s.LastWriteBefore x w → s.vacated w = true) ∧
      ∀ {v : Nat}, v < x → s.Accepted .write v → s.At v (·.request.isSettled = true)) := by
  have hs := h.valid
  have hbegun : s.hasBegun x = true := by
    have hmem : x ∈ s.starts := List.mem_filterMap.mpr ⟨_, hx, rfl⟩
    have hpos := List.count_pos_iff.mpr hmem
    rw [hs.sound.starts] at hpos
    split at hpos
    · assumption
    · cases hpos
  have hc := h.cleared hbegun
  refine ⟨fun hax r hrx har => ?_, fun hax => ⟨fun hw => ?_, fun hvx hv => hc.settled hv hvx⟩⟩
  · obtain ⟨hv, hset⟩ := hc.vacated (.inl ⟨hax, har, hrx⟩)
    have hover := hs.isOver hl hv
    refine ⟨?_, fun hrun => hrun.count_starts hs hover⟩
    obtain ⟨e, he, hv⟩ := vacated_eq_true_iff.mp hv
    exact ⟨e, he, hset.of_entry he, hv, hover.of_entry he⟩
  · exact (hc.vacated (.inr ⟨hax, hw⟩)).1

/-- A read that returned, and a write that began after it. -/
def observing : Machine Unit :=
  (start none).play 8 [.submit .read {}, .poll 0, .advance 0, .poll 0, .submit .write {}, .poll 1,
    .advance 1]

theorem started_in_order_observing : Event.start 1 false ∈ observing.events ∧
    observing.Accepted .write 1 ∧ observing.Accepted .read 0 ∧
    (observing.At 0 fun e => e.request.isSettled = true ∧ e.isVacated = true ∧
      e.callback.isOver = true) := by
  have hlive : observing.live = true := rfl
  have hstart : Event.start 1 false ∈ observing.events :=
    List.mem_cons_of_mem _ List.mem_cons_self
  have hwrite : observing.Accepted .write 1 := ⟨_, rfl, rfl, by decide⟩
  have hread : observing.Accepted .read 0 := ⟨_, rfl, rfl, by decide⟩
  obtain ⟨hearlier, _⟩ := started_in_order (run_play 8 _ (start none)) hlive hstart
  exact ⟨hstart, hwrite, hread, (hearlier hwrite (by decide) hread).1⟩

/-- When no work on gates is left, whoever is queued waits for somebody who has not vacated. -/
theorem Gated.exists_awaits (h : s.Gated) (hd : s.duties = []) (hq : s.At x (·.stage = .queued)) :
    ∃ d, s.Awaits x d ∧ s.vacated d = false := by
  -- Its gate is still counting, so some slot is going to release it.
  obtain ⟨w, hw, _⟩ | ⟨g, gate, hg, rfl, hpos⟩ := exists_of_launches_pos (h.queued hq)
  · simp [hd] at hw
  have hpledged : s.pledges g = gate.remaining := by rw [h.pledged g, remaining, hg]
  obtain ⟨w, hw, _⟩ | ⟨d, hm⟩ := exists_of_pledges_pos (hpledged ▸ hpos)
  · simp [hd] at hw
  obtain ⟨b, hgb, ha⟩ := h.awaiting (.inr hm)
  obtain rfl := Option.some.inj (hg.symm.trans hgb)
  exact ⟨d, ha, hm.vacated⟩

/-- A slot that has left the queue was handed to the runtime, unless it was cancelled. -/
theorem Valid.spawned (h : s.Valid) (he : s.entries[x]? = some e) (hr : e.stage ≠ .refused)
    (ht : e.request.tripped = false) (hq : e.stage ≠ .queued) : e.task ≠ .unspawned := by
  have hc := (h.sound.entry he).coherent
  cases hs : e.stage with
  | refused => exact absurd hs hr
  | queued => exact absurd hs hq
  | dispatched => exact (hc.dispatched hs).1
  | vacated =>
      obtain ⟨_, htrip, _⟩ | ⟨hend, _⟩ := hc.vacated hs
      · simp [ht] at htrip
      · simp [hend]

/-- A read whose write has vacated was handed to the runtime, unless it was cancelled before. -/
theorem Valid.spawned_of_vacated {w : Nat} (h : s.Valid) (hd : s.duties = [])
    (hx : s.Accepted .read x) (hw : s.LastWriteBefore x w) (hv : s.vacated w = true)
    (ht : s.At x (·.request.tripped = false)) : s.At x (·.task ≠ .unspawned) := by
  obtain ⟨e, he, ht⟩ := ht
  refine ⟨e, he, h.spawned he (hx.of_entry he).2 ht fun hq => ?_⟩
  obtain ⟨d, ha, hvd⟩ := h.gated.exists_awaits hd ⟨e, he, hq⟩
  obtain ⟨hwrite, _⟩ | ⟨_, hlast⟩ := ha
  · cases hwrite.kind_unique hx
  · obtain rfl := hlast.unique hw
    simp [hv] at hvd

/-- At rest, a request that nobody has cancelled is queued exactly as long as it has to wait. -/
theorem Valid.queued_iff (h : s.Valid) (hw : s.work = []) (he : s.entries[x]? = some e)
    (hr : e.stage ≠ .refused) (ht : e.request.tripped = false) :
    e.stage = .queued ↔ ∃ d, s.Awaits x d ∧ s.vacated d = false := by
  have hd : s.duties = [] := by rw [duties, hw, List.filter_nil]
  refine ⟨fun hq => h.gated.exists_awaits hd ⟨e, he, hq⟩, ?_⟩
  rintro ⟨d, ha, hv⟩
  apply Decidable.byContradiction
  intro hq
  simp [h.gated.clear ⟨e, he, h.spawned he hr ht hq⟩ ha] at hv

/-- At rest, a write that nobody has cancelled is queued exactly while a read from before it has
not vacated, and a read exactly while the last write before it has not. -/
theorem queued_iff_waiting (h : Reachable permits s) (hw : s.work = [])
    (he : s.entries[x]? = some e) (hr : e.stage ≠ .refused) (ht : e.request.tripped = false) :
    (e.kind = .write →
      (e.stage = .queued ↔ ∃ r, s.Accepted .read r ∧ r < x ∧ s.vacated r = false)) ∧
    (e.kind = .read →
      (e.stage = .queued ↔ ∃ w, s.LastWriteBefore x w ∧ s.vacated w = false)) := by
  have hiff := h.valid.queued_iff hw he hr ht
  refine ⟨fun hk => hiff.trans ?_, fun hk => hiff.trans ?_⟩
  · have hx : s.Accepted .write x := ⟨e, he, hk, hr⟩
    constructor
    · rintro ⟨d, ⟨_, hd, hdx⟩ | ⟨hread, _⟩, hv⟩
      · exact ⟨d, hd, hdx, hv⟩
      · cases hx.kind_unique hread
    · rintro ⟨r, hr, hrx, hv⟩
      exact ⟨r, .inl ⟨hx, hr, hrx⟩, hv⟩
  · have hx : s.Accepted .read x := ⟨e, he, hk, hr⟩
    constructor
    · rintro ⟨d, ⟨hwrite, _⟩ | ⟨_, hd⟩, hv⟩
      · cases hx.kind_unique hwrite
      · exact ⟨d, hd, hv⟩
    · rintro ⟨w, hw, hv⟩
      exact ⟨w, .inr ⟨hx, hw⟩, hv⟩

/-- A read that does not return, and a write that waits for it. -/
def waiting : Machine Unit :=
  (start none).play 8 [.submit .read { mode := .hold }, .poll 0, .advance 0, .submit .write {}]

theorem queued_iff_waiting_waiting : waiting.work = [] ∧
    ∃ r, waiting.Accepted .read r ∧ r < 1 ∧ waiting.vacated r = false := by
  have hrest : waiting.work = [] := rfl
  have hentry : waiting.entries[1]? =
      some { Entry.queued .write 2 (.callback {}) with future := .held } := rfl
  obtain ⟨hiff, _⟩ := queued_iff_waiting (run_play 8 _ (start none)) hrest hentry (by decide) rfl
  exact ⟨hrest, (hiff rfl).mp rfl⟩

/-- A pending request that was submitted as a write was admitted, and no write after it. -/
theorem Valid.lastWrite_of_pending (h : s.Valid) (hw : s.work = [])
    (hx : s.At x fun e => e.kind = .write ∧ e.request.status = .pending) :
    s.LastWriteBefore s.entries.length x := by
  obtain ⟨e, he, hk, hp⟩ := hx
  have hpending : e.request.isSettled = false := (Request.status_eq_pending_iff _).mp hp
  have hstage : e.stage ≠ .refused := by
    intro hr
    have hset := (((h.sound.entry he).refused hr).settled hw).of_entry he
    simp [hset] at hpending
  have hacc : s.Accepted .write x := ⟨e, he, hk, hstage⟩
  refine ⟨hacc, hacc.lt, fun {v} hxv _ hv => ?_⟩
  have hset := (h.settled_of_write hw hacc hv hxv).of_entry he
  simp [hset] at hpending

/-- At rest, whoever was admitted before the last write has settled, and has vacated or was
cancelled. So one write at most is pending, and it is the last one. -/
theorem superseded_by_last_write (h : Reachable permits s) (hw : s.work = []) :
    (∀ {w x : Nat} {kind : Kind}, s.LastWriteBefore s.entries.length w → s.Accepted kind x →
      x < w → s.At x fun e => e.request.status.isTerminal = true ∧
        (e.isVacated = true ∨ e.request.tripped = true)) ∧
    (∀ {x : Nat}, (s.At x fun e => e.kind = .write ∧ e.request.status = .pending) →
      s.LastWriteBefore s.entries.length x) ∧
    ∀ {x y : Nat}, (s.At x fun e => e.kind = .write ∧ e.request.status = .pending) →
      (s.At y fun e => e.kind = .write ∧ e.request.status = .pending) → x = y := by
  have hs := h.valid
  refine ⟨fun {w x kind} hlast hx hxw => ?_, fun hx => hs.lastWrite_of_pending hw hx, ?_⟩
  · refine ((hs.superseding hlast.write hx hxw).settled hs hw).imp fun e he => ?_
    obtain ⟨hset, hgone⟩ := he
    exact ⟨(Request.isTerminal_status _).mpr hset, hgone⟩
  · intro x y hx hy
    exact (hs.lastWrite_of_pending hw hx).unique (hs.lastWrite_of_pending hw hy)

theorem superseded_by_last_write_overtaken : overtaken.work = [] ∧
    overtaken.LastWriteBefore overtaken.entries.length 1 ∧
    overtaken.At 0 fun e => e.request.status.isTerminal = true ∧
      (e.isVacated = true ∨ e.request.tripped = true) := by
  have hrest : overtaken.work = [] := rfl
  have hpending : overtaken.At 1 fun e => e.kind = .write ∧ e.request.status = .pending :=
    ⟨_, rfl, rfl, rfl⟩
  have hfirst : overtaken.Accepted .write 0 := ⟨_, rfl, rfl, by decide⟩
  obtain ⟨hbefore, hlast, _⟩ := superseded_by_last_write (run_play 8 _ (start none)) hrest
  exact ⟨hrest, hlast hpending, hbefore (hlast hpending) hfirst (by decide)⟩

end Machine

end RequestScheduler
