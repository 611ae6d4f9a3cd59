import RequestScheduler.Proofs.Order

/-!
# The end of admission

When admission is closed, every request that was admitted before has vacated, or is cancelled, or is
about to be (`Sealed`). From then on the record counts refusals and does not change otherwise, and
every submission is answered with a refusal before anything else happens (`Answered`). So a shutdown
leaves nobody pending, and nobody begins after it (`sealed_by_shutdown`).
-/

namespace RequestScheduler

/-- The record when so many more submissions have been refused. -/
def Admission.rejecting (n : Nat) (a : Admission) : Admission :=
  { a with rejected := a.rejected + .ofNat n }

namespace Admission

variable {a : Admission}

@[simp] theorem rejecting_zero (a : Admission) : a.rejecting 0 = a := by
  simp [rejecting]

theorem reject_eq (a : Admission) : a.reject = a.rejecting 1 := rfl

theorem rejecting_rejecting (m n : Nat) (a : Admission) :
    (a.rejecting m).rejecting n = a.rejecting (m + n) := by
  simp [rejecting, UInt64.ofNat_add, UInt64.add_assoc]

/-- A record that lists nobody has nobody to forget. -/
theorem prune_of_empty (vacated : Nat → Bool) (hr : a.reads = []) (hw : a.writes = [])
    (hc : a.currentWrite = none) : a.prune vacated = a := by
  obtain ⟨⟩ := a
  simp_all [prune]

/-- A closed record that lists nobody is not changed by closing it again. -/
theorem close_of_empty (h : a.closed = true) (hr : a.reads = []) (hw : a.writes = [])
    (hc : a.currentWrite = none) :
    { a with closed := true, currentWrite := none, reads := [], writes := [] } = a := by
  obtain ⟨⟩ := a
  simp_all

end Admission

namespace Machine

variable {D : Type} {s t u : Machine D} {permits : Option Permits} {i x : Nat} {e f : Entry D}
  {kind : Kind} {a : Act D}

/-- Once admission is closed, nobody who was admitted is left out: each has vacated, or its
cancellation was requested, or is about to be. -/
def Sealed (s : Machine D) : Prop := s.admission.closed = true →
  ∀ (kind : Kind) (x : Nat), s.Accepted kind x → s.vacated x = true ∨
    (s.At x (·.request.tripped = true) ∧ s.Secured x) ∨ .cancelSlot x ∈ s.work

/-- Whoever was admitted is settled, or about to be, or is about to be cancelled. -/
theorem Sealed.secured (h : s.Sealed) (hs : s.Sound) (hc : s.admission.closed = true)
    (hx : s.Accepted kind x) : s.Secured x ∨ .cancelSlot x ∈ s.work := by
  obtain hv | ⟨_, hsec⟩ | hw := h hc kind x hx
  · obtain ⟨e, he, hv⟩ := vacated_eq_true_iff.mp hv
    exact .inl ((hs.entry he).vacated hv)
  · exact .inl hsec
  · exact .inr hw

/-- The rules keep up the end of admission. -/
theorem Rule.sealed (h : Rule s t) (hs : s.Sound) (hr : s.Recorded) (hp : s.Sealed) :
    t.Sealed := by
  have hg : s.Grows t := h.grows hs.isCoherent
  have kept (hc : t.admission.closed = true → s.admission.closed = true)
      (hn : ∀ {kind : Kind} {x : Nat}, t.Accepted kind x → x < s.entries.length) : t.Sealed := by
    intro htc kind x hx
    obtain hv | ⟨ht, hsec⟩ | hw := hp (hc htc) kind x ((accepted_iff hg (hn hx)).mp hx)
    · exact .inl (vacated_grow hg hv)
    · exact .inr (.inl ⟨ht.mono hg (·.tripped), h.secured hs hsec⟩)
    · obtain hw | ⟨ht, hsec, _⟩ := h.spent hw
      · exact .inr (.inr hw)
      · exact .inr (.inl ⟨ht, .inr hsec⟩)
  cases h with
  | touch h =>
      exact kept (h.admission ▸ id) fun hx => by
        have := hx.lt
        rwa [h.length] at this
  | close =>
      rintro - kind x hx
      by_cases hv : s.vacated x = true
      · exact .inl (vacated_grow hg hv)
      have hv : s.vacated x = false := by simpa using hv
      have hx : s.Accepted kind x := hx
      cases hclosed : s.admission.closed with
      | true =>
          refine .inr ((hp hclosed kind x hx).resolve_left (by simp [hv]) |>.imp ?_ ?_)
          · rintro ⟨ht, hsec⟩
            exact ⟨ht, hsec.imp_right fun ho => ho.imp fun _ => List.mem_append_right _⟩
          · exact List.mem_append_right _
      | false =>
          refine .inr (.inr (List.mem_append_left _ (List.mem_map.mpr ⟨x, ?_, rfl⟩)))
          cases kind with
          | read => exact List.mem_append_right _ (hr.mem_reads hclosed hx hv)
          | write => exact List.mem_append_left _ (hr.mem_writes hclosed hx hv)
  | refuse k =>
      refine kept id fun {kind x} hx => ?_
      obtain hx | rfl := accepted_cases hg rfl hx
      · exact hx.lt
      · exact absurd rfl (hx.of_entry List.getElem?_concat_length).2
  | read _ _ _ _ _ _ _ hac | write _ _ _ _ _ _ _ hac => exact fun hc => by simp [hac] at hc
  | _ => exact kept id fun hx => by simpa using hx.lt

theorem sealed_start (permits : Option Permits) : (start permits : Machine D).Sealed :=
  fun hc => by simp [start] at hc

theorem Reachable.sealed (h : Reachable permits s) : s.Sealed :=
  (Run.induct (p := Sealed) h (valid_start permits) (sealed_start permits) fun hu hp hr =>
    hr.sealed hu.sound hu.recorded hp).2

/-- The machine has refused all submissions since it had `n` entries and this record. -/
structure Refusing (n : Nat) (r : Admission) (s : Machine D) : Prop where
  closed : s.admission.closed = true
  length : n ≤ s.entries.length
  record : s.admission = r.rejecting (s.entries.length - n)
  refused : ∀ {x : Nat} {e : Entry D}, n ≤ x → s.entries[x]? = some e → e.stage = .refused

/-- A machine whose admission is closed goes on refusing. -/
theorem Rule.refusing {n : Nat} {r : Admission} (h : Rule s t) (hs : s.Sound) (hr : s.Recorded)
    (hp : s.Refusing n r) : t.Refusing n r := by
  have hg : s.Grows t := h.grows hs.isCoherent
  obtain ⟨hreads, hwrites, hcurrent⟩ := hr.closed hp.closed
  have kept (hl : t.entries.length = s.entries.length) (ha : t.admission = s.admission) :
      t.Refusing n r := by
    refine ⟨ha ▸ hp.closed, hl ▸ hp.length, by rw [ha, hl, hp.record], fun {x f} hx hf => ?_⟩
    have hlt : x < s.entries.length := hl ▸ (List.getElem?_eq_some_iff.mp hf).1
    obtain ⟨g, hgx, heg⟩ := hg.entry (List.getElem?_eq_getElem hlt)
    obtain rfl := Option.some.inj (hf.symm.trans hgx)
    exact heg.refused.mpr (hp.refused hx (List.getElem?_eq_getElem hlt))
  cases h with
  | touch h => exact kept h.length h.admission
  | prune => exact kept rfl (Admission.prune_of_empty _ hreads hwrites hcurrent)
  | close => exact kept rfl (Admission.close_of_empty hp.closed hreads hwrites hcurrent)
  | refuse k =>
      have hlen := hp.length
      refine ⟨hp.closed, by simp; omega, ?_, fun {x f} hx hf => ?_⟩
      · have hcount : s.entries.length - n + 1 = (s.entries ++ [Entry.refused k]).length - n := by
          simp
          omega
        rw [Admission.reject_eq, hp.record, Admission.rejecting_rejecting, hcount]
      · obtain ⟨_, rfl⟩ | hf := getElem?_concat_cases hf
        · rfl
        · exact hp.refused hx hf
  | read _ _ _ _ _ _ hc | write _ _ _ _ _ _ hc => cases hc.symm.trans hp.closed
  | _ => exact kept (by simp) rfl

/-- Every refused request is answered with a refusal, by the work that comes first if not
already. -/
def Answered (s : Machine D) : Prop :=
  ∀ (i : Nat) (e : Entry D), s.entries[i]? = some e → e.stage = .refused →
    e.request.cell.value? = some (.error .shutdownRejected) ∨
      e = .refused e.kind ∧ s.work.head? = some (.settle i (.error .shutdownRejected))

/-- A submission to a closed record is answered first. -/
theorem head?_submit {body : Body D} {after : List (Work D)} (hc : s.admission.closed = true) :
    (s.submit kind body after).work.head? =
      some (.settle s.entries.length (.error .shutdownRejected)) := by
  simp [submit, hc]

/-- Whatever a machine does, refused requests are answered. -/
theorem Answered.apply (h : s.Answered) (hs : s.Valid) (ha : a.Enabled s) :
    (a.apply s).Answered := by
  intro i f hf hr
  have hgrows : s.Grows (a.apply s) := (Run.grows (.single ha.step) hs)
  cases he : s.entries[i]? with
  | some e =>
      obtain ⟨g, hg, heg⟩ := hgrows.entry he
      obtain rfl := Option.some.inj (hf.symm.trans hg)
      obtain hv | ⟨hfresh, hhead⟩ := h i e he (heg.refused.mp hr)
      · exact .inl (heg.value _ hv)
      -- The answer is what is done now.
      cases a with
      | item w =>
          obtain rfl : w = .settle i (.error .shutdownRejected) :=
            Option.some.inj (ha.symm.trans hhead)
          have hpending : e.request.isSettled = false := by rw [hfresh]; rfl
          have hset := entry_settle (r := s.work.tail) (o := .error .shutdownRejected) he hpending
          obtain rfl := Option.some.inj (hf.symm.trans hset)
          left
          rw [hfresh]
          rfl
      | move m => simp [show s.work = [] from ha] at hhead
  | none =>
      obtain ⟨kind, body, hsub, rfl, rfl⟩ :=
        (Act.edits hs.sound.isCoherent a).exists_submits he hf
      have hc : s.admission.closed = true := by
        apply Decidable.byContradiction
        intro hc
        simp [newcomer, hc, Entry.queued] at hr
      refine .inr ⟨by simp [newcomer, hc, Entry.refused], ?_⟩
      cases a with
      | item w =>
          cases w with
          | perform c =>
              cases c with
              | submit => exact head?_submit hc
              | _ => cases hsub
          | _ => cases hsub
      | move m =>
          cases m with
          | submit => exact head?_submit hc
          | _ => cases hsub

theorem Reachable.answered (h : Reachable permits s) : s.Answered :=
  Run.act_induction h (valid_start permits) (fun i e he => by simp [start] at he)
    fun hu hp ha => hp.apply hu ha

theorem Run.refusing {n : Nat} {r : Admission} (h : Run s t) (hs : s.Valid)
    (hp : s.Refusing n r) : t.Refusing n r :=
  (h.induct (p := Refusing n r) hs hp fun hu hp hr => hr.refusing hu.sound hu.recorded hp).2

/-- From the moment at which admission is closed, all submissions are refused. -/
theorem refusing_closeDown (s : Machine D) :
    s.closeDown.Refusing s.entries.length s.closeDown.admission := by
  refine ⟨closed_closeDown s, by simp, by simp, fun {x e} hx he => ?_⟩
  rw [entries_closeDown] at he
  have := (List.getElem?_eq_some_iff.mp he).1
  omega

/-- At rest, after admission was closed, nobody is pending who was admitted. -/
theorem Sealed.settled (h : s.Sealed) (hs : s.Sound) (hc : s.admission.closed = true)
    (hw : s.work = []) (hx : s.Accepted kind x) :
    s.At x (·.request.status.isTerminal = true) := by
  have hsec := (h.secured hs hc hx).resolve_right (by simp [hw])
  exact (hsec.settled hw).imp fun _ he => (Request.isTerminal_status _).mpr he

/-- A refused request has its answer by the time that its future can be used. -/
theorem Answered.value (h : s.Answered) (he : s.entries[x]? = some e) (hr : e.stage = .refused)
    (hu : s.work = [] ∨ e.future ≠ .withheld) :
    e.request.cell.value? = some (.error .shutdownRejected) := by
  refine (h x e he hr).resolve_right ?_
  rintro ⟨hfresh, hhead⟩
  obtain hw | hf := hu
  · simp [hw] at hhead
  · exact hf (by rw [hfresh]; rfl)

/-- When a shutdown returns, however long it has waited, admission is closed, every request that
was admitted before has settled, and those that had settled keep their outcome. From the moment at
which admission is closed, every submission is refused: its future settles with the refusal, its
callback never begins, and the record counts it and changes in nothing else. -/
theorem sealed_by_shutdown (h : Reachable permits s) (hw : s.work = []) :
    (∀ {t u : Machine D} {timeoutMs : UInt64}, Run s.beginShutdown.2 t → t.work = [] →
      u = (t.finishShutdown s.beginShutdown.1 timeoutMs).2 →
      u.admission.closed = true ∧
      (∀ {kind : Kind} {i : Nat}, s.Accepted kind i →
        u.At i (·.request.status.isTerminal = true)) ∧
      ∀ {i : Nat} {o : Outcome (Value D)}, s.At i (·.request.cell.value? = some o) →
        u.At i (·.request.cell.value? = some o)) ∧
    ∀ {u : Machine D}, Run s.closeDown u →
      u.admission = s.closeDown.admission.rejecting (u.entries.length - s.entries.length) ∧
      ∀ {x : Nat} {e : Entry D}, s.entries.length ≤ x → u.entries[x]? = some e →
        (u.work = [] ∨ e.future ≠ .withheld →
          e.request.cell.value? = some (.error .shutdownRejected)) ∧
        ∀ b, Event.start x b ∉ u.events := by
  have hclose : Step s s.closeDown := .move .shutdown hw
  have hvalid : s.closeDown.Valid := Run.valid (.single hclose) h.valid
  have refusing {u : Machine D} (hu : Run s.closeDown u) :
      u.Refusing s.entries.length s.closeDown.admission :=
    hu.refusing hvalid (refusing_closeDown s)
  constructor
  · intro t u ms ht htw hu
    have hrun : Run s.closeDown t := .trans (run_drain s.closeDown) ht
    have hall : Run s t := .head hclose hrun
    have hreach : Reachable permits t := .trans h hall
    have hclosed : t.admission.closed = true := (refusing hrun).closed
    have hgrows : s.Grows t := hall.grows h.valid
    have hentries : u.entries = t.entries := by rw [hu]; rfl
    refine ⟨by rw [hu]; exact hclosed, fun hx => ?_, fun hv => ?_⟩
    · exact (At.congr hentries).mpr
        (hreach.sealed.settled hreach.valid.sound hclosed htw (hx.grow hgrows))
    · exact (At.congr hentries).mpr (hv.mono hgrows fun he => he.value _)
  · intro u hu
    have hreach : Reachable permits u := .trans h (.head hclose hu)
    have hrefusing := refusing hu
    refine ⟨hrefusing.record, fun {x e} hx he => ?_⟩
    have hr := hrefusing.refused hx he
    refine ⟨hreach.answered.value he hr, fun b => ?_⟩
    have hdropped := ((hreach.valid.sound.entry he).coherent.refused hr).2.2
    exact Run.not_start .refl hreach.valid ⟨e, he, hdropped⟩

/-- A read that performs, and a write that waits for it; when the write settles, another read is
submitted. -/
def closing : Machine Unit :=
  (start none).play 8 [.submit .read { mode := .hold }, .poll 0, .advance 0, .submit .write {},
    .onSettled 1 () [.submit .read .straight [] [] .nothing]]

theorem sealed_by_shutdown_closing : closing.work = [] ∧
    closing.beginShutdown.2.At 0 (·.request.status.isTerminal = true) ∧
    (closing.closeDown.steps 8).At 2 fun e => e.future = .held ∧
      e.request.cell.value? = some (.error .shutdownRejected) := by
  have hrest : closing.work = [] := rfl
  have hread : closing.Accepted .read 0 := ⟨_, rfl, rfl, by decide⟩
  obtain ⟨hreturns, hafter⟩ := sealed_by_shutdown (run_play 8 _ (start none)) hrest
  have hsettled := (hreturns (u := (closing.beginShutdown.2.finishShutdown _ 5000).2) .refl
    (work_drain _) rfl).2.1 hread
  have hnested := (hafter (run_steps 8 _)).2 (x := 2) (by decide) rfl
  exact ⟨hrest, hsettled, _, rfl, rfl, hnested.1 (.inr (by decide))⟩

end Machine

end RequestScheduler
