import RequestScheduler.Proofs.Order

/-!
# What runs beside a read

A read waits for the last write before it and for no other. A write from further back was superseded
before the callback of the read began, so that its indicator is set and its request has settled
(`SteppedAside`). But nothing waits for its slot: a callback that does not heed its indicator goes
on beside the read (`writes_beside_read`, `read_beside_write`).
-/

namespace RequestScheduler

namespace Machine

variable {D : Type} {s t : Machine D} {permits : Option Permits} {v x : Nat} {e : Entry D}

/-- The write holds `x` back no more: its slot has vacated, or a later write before `x` has
superseded it. -/
def SteppedAside (s : Machine D) (x v : Nat) : Prop :=
  s.vacated v = true ∨ ¬s.LastWriteBefore x v ∧ s.At v (·.request.tripped = true)

theorem SteppedAside.grow (h : s.SteppedAside x v) (hg : s.Grows t) (hx : x ≤ s.entries.length) :
    t.SteppedAside x v := by
  obtain h | ⟨hl, ht⟩ := h
  · exact .inl (vacated_grow hg h)
  · exact .inr ⟨mt (lastWriteBefore_iff hg hx).mp hl, ht.mono hg (·.tripped)⟩

/-- By the time a read is handed to the runtime, the writes before it have stepped aside. -/
theorem Valid.steppedAside (h : s.Valid) (hw : s.work = []) (hx : s.Accepted .read x)
    (ht : s.At x (·.task ≠ .unspawned)) (hv : s.Accepted .write v) (hvx : v < x) :
    s.SteppedAside x v := by
  obtain ⟨u, hu, hvu⟩ := exists_lastWriteBefore hv hvx
  by_cases hlast : s.LastWriteBefore x v
  · exact .inl (h.gated.clear ht (.inr ⟨hx, hlast⟩))
  have hlt : v < u := Nat.lt_of_le_of_ne hvu fun heq => hlast (heq ▸ hu)
  obtain ⟨e, he, _, hgone⟩ := (h.superseding hu.write hv hlt).settled h hw
  exact hgone.imp (fun hv => vacated_eq_true_iff.mpr ⟨e, he, hv⟩) fun ht => ⟨hlast, e, he, ht⟩

/-- The writes before a read that has begun have stepped aside. -/
def Unopposed (s : Machine D) : Prop := ∀ {x v : Nat}, s.hasBegun x = true →
  s.Accepted .read x → s.Accepted .write v → v < x → s.SteppedAside x v

theorem Rule.unopposed (h : Rule s t) (hs : s.Valid) (hu : s.Unopposed) : t.Unopposed := by
  have hg : s.Grows t := h.grows hs.sound.isCoherent
  intro x v hx hread hwrite hvx
  obtain ⟨hlt, hx⟩ := h.hasBegun_cases hs.sound hx
  have hread : s.Accepted .read x := (accepted_iff hg hlt).mp hread
  have hwrite : s.Accepted .write v := (accepted_iff hg (by omega)).mp hwrite
  suffices s.SteppedAside x v from this.grow hg (by omega)
  obtain hx | ⟨hw, ht⟩ := hx
  · exact hu hx hread hwrite hvx
  · exact hs.steppedAside hw hread ht hwrite hvx

theorem Reachable.unopposed (h : Reachable permits s) : s.Unopposed :=
  (Run.induct (p := Unopposed) h (valid_start permits)
    (fun hx => by simp [hasBegun, start] at hx) fun hu hp hr => hr.unopposed hu hp).2

/-- While the callback of a read runs, every write before it has settled, and its callback is over
and its slot vacated, unless another write stands between it and the read. Such a write was
superseded before the read began: its indicator is set, and if its callback runs, its request is
cancelled. -/
theorem writes_beside_read (h : Reachable permits s) (hl : s.live = true)
    (hx : s.At x fun e => e.kind = .read ∧ e.callback.isRunning = true)
    (hv : s.Accepted .write v) (hvx : v < x) :
    s.At v (·.request.isSettled = true) ∧
    (s.LastWriteBefore x v → s.At v fun e => e.isVacated = true ∧ e.callback.isOver = true) ∧
    ((s.At v fun e => e.isVacated = true ∧ e.callback.isOver = true) ∨
      s.At v fun e => e.isVacated = false ∧ e.request.tripped = true ∧
        (e.callback.isRunning = true → e.request.status = .cancelled)) := by
  have hs := h.valid
  obtain ⟨a, ha, hread, hrun⟩ := hx
  have hbegun := Callback.hasBegun_of_isRunning hrun
  have hx : s.hasBegun x = true := hasBegun_eq_true_iff.mpr ⟨a, ha, hbegun⟩
  have hread : s.Accepted .read x := hread ▸ hs.accepted ha hbegun
  have hsettled := (h.cleared hx).settled hv hvx
  have gone (hv : s.vacated v = true) :
      s.At v fun e => e.isVacated = true ∧ e.callback.isOver = true := by
    obtain ⟨e, he, hvac⟩ := vacated_eq_true_iff.mp hv
    exact ⟨e, he, hvac, (hs.isOver hl hv).of_entry he⟩
  have haside := h.unopposed hx hread hv hvx
  refine ⟨hsettled, fun hlast => gone (haside.resolve_right fun hn => hn.1 hlast), ?_⟩
  by_cases hvac : s.vacated v = true
  · exact .inl (gone hvac)
  obtain ⟨_, e, he, ht⟩ := haside.resolve_left hvac
  have hocc : e.isVacated = false := by simpa [vacated, he] using hvac
  refine .inr ⟨e, he, hocc, ht, fun hr => ?_⟩
  exact hs.cancelled_of_isRunning he hr (hsettled.of_entry he)

/-- A write that parked, a later one that superseded it and returned, and a read that was admitted
after both. -/
def belated : Machine Unit :=
  (start none).play 16 [.submit .write { mode := .hold }, .poll 0, .advance 0, .submit .write {},
    .submit .read { mode := .hold }, .poll 1, .advance 1, .poll 1, .poll 2, .advance 2]

theorem writes_beside_read_belated : belated.live = true ∧
    (belated.At 2 fun e => e.kind = .read ∧ e.callback.isRunning = true) ∧
    belated.Accepted .write 0 ∧ belated.Accepted .write 1 ∧
    (belated.At 0 fun e => e.isVacated = false ∧ e.request.tripped = true ∧
      e.callback.isRunning = true ∧ e.request.status = .cancelled) ∧
    belated.At 1 fun e => e.isVacated = true ∧ e.callback.isOver = true := by
  have hreach : Reachable none belated := run_play 16 _ _
  have hlive : belated.live = true := rfl
  have hread : belated.At 2 fun e => e.kind = .read ∧ e.callback.isRunning = true :=
    ⟨_, rfl, rfl, rfl⟩
  have hfirst : belated.Accepted .write 0 := ⟨_, rfl, rfl, by decide⟩
  have hsecond : belated.Accepted .write 1 := ⟨_, rfl, rfl, by decide⟩
  have hlast : belated.LastWriteBefore 2 1 := ⟨hsecond, by decide, fun _ _ => by omega⟩
  have hone := (writes_beside_read hreach hlive hread hsecond (by decide)).2.1 hlast
  have hparked : belated.At 0 fun e => e.isVacated = false ∧ e.callback.isRunning = true :=
    ⟨_, rfl, rfl, rfl⟩
  obtain hgone | ⟨e, he, hocc, ht, hc⟩ :=
    (writes_beside_read hreach hlive hread hfirst (by decide)).2.2
  · obtain ⟨e, he, hvac, _⟩ := hgone
    cases hvac.symm.trans (hparked.of_entry he).1
  · have hrun := (hparked.of_entry he).2
    exact ⟨hlive, hread, hfirst, hsecond, ⟨e, he, hocc, ht, hrun, hc hrun⟩, hone⟩

/-- A read runs while the callback of a write from before it goes on. -/
theorem read_beside_write : Reachable none belated ∧ belated.live = true ∧ belated.work = [] ∧
    (belated.At 2 fun e => e.kind = .read ∧ e.callback.isRunning = true) ∧
    belated.Accepted .write 0 ∧
    belated.At 0 fun e => e.isVacated = false ∧ e.callback.isRunning = true :=
  ⟨run_play 16 _ _, rfl, rfl, ⟨_, rfl, rfl, rfl⟩, ⟨_, rfl, rfl, by decide⟩, _, rfl, rfl, rfl⟩

end Machine

end RequestScheduler
