import RequestScheduler.Proofs.Drain
import RequestScheduler.Proofs.Order

/-!
# Slots that leave the queue

What is queued and is going to be taken out of the queue (`Outgoing`) vacates without having been
dispatched, when something keeps it from being dispatched until then. What does so is either behind
the work that is being done, or a slot that does not vacate with it (`Blocked`). Both are followed
from one work item to the next (`Carries`).
-/

namespace RequestScheduler

variable {D : Type}

/-- Whether a work item is going to take the slot of `x` out of the queue. -/
def Work.takesOut (x : Nat) : Work D → Prop
  | .cancelSlot i | .supersede i _ | .skip i => i = x
  | .cancelEach ids _ _ => x ∈ ids
  | _ => False

namespace Machine

variable {s t : Machine D} {x : Nat} {e : Entry D} {w : Work D}
  {front rest items l : List (Work D)}

/-- A read that was not cancelled and waits for a write that is itself queued. -/
def Exposed (s : Machine D) (x : Nat) : Prop :=
  (s.At x fun e => e.kind = .read ∧ e.request.tripped = false) ∧
    ∃ w, s.LastWriteBefore x w ∧ s.At w (·.stage = .queued)

/-- The slot of `d` has left the queue, and does not vacate with the work in `front`. -/
structure Standing (s : Machine D) (d : Nat) (front : List (Work D)) : Prop where
  occupied : s.vacated d = false
  left : s.At d (·.stage ≠ .queued)
  front : ∀ w ∈ front, w.vacates? ≠ some d

/-- Whatever keeps `x` from being dispatched by the work in `front`: its flag, something behind
that is to launch it or to release its gate, or a slot that does not vacate. -/
inductive Blocked (s : Machine D) (x : Nat) (front rest : List (Work D)) : Prop
  | tripped (h : s.At x (·.request.tripped = true))
  | launch {w : Work D} (hw : w ∈ rest) (h : w.launches? = some x)
  | gate {w : Work D} {g : Nat} {gate : Gate} (hw : w ∈ rest) (h : w.gate? = some g)
      (hg : s.gates[g]? = some gate) (hs : gate.slot = x)
  | standing {d : Nat} (ha : s.Awaits x d) (hd : s.Standing d front)

/-- A queued slot that is not exposed is blocked. -/
theorem Valid.blocked (h : s.Valid) (hx : s.At x (·.stage = .queued)) (hn : ¬s.Exposed x)
    (hs : s.work = front ++ rest) (hf : ∀ w ∈ front, w.isDuty = false ∧ w.vacates? = none) :
    s.Blocked x front rest := by
  have behind {w : Work D} (hw : w ∈ s.duties) : w ∈ rest := by
    obtain ⟨hw, hduty⟩ := List.mem_filter.mp hw
    apply (List.mem_append.mp (hs ▸ hw)).resolve_left
    intro hw
    simp [(hf w hw).1] at hduty
  obtain ⟨e, he, hq⟩ := hx
  cases ht : e.request.tripped with
  | true => exact .tripped ⟨e, he, ht⟩
  | false => ?_
  obtain ⟨w, hw, hl⟩ | ⟨g, gate, hg, hx, hpos⟩ :=
    exists_of_launches_pos (h.gated.queued ⟨e, he, hq⟩)
  · exact .launch (behind hw) hl
  have hpledged : s.pledges g = gate.remaining := by rw [h.gated.pledged g, remaining, hg]
  obtain ⟨w, hw, hwg⟩ | ⟨d, hm⟩ := exists_of_pledges_pos (hpledged ▸ hpos)
  · exact .gate (behind hw) hwg hg hx
  obtain ⟨b, hgb, ha⟩ := h.gated.awaiting (.inr hm)
  obtain rfl := Option.some.inj (hg.symm.trans hgb)
  subst hx
  refine .standing ha ⟨hm.vacated, ?_, fun w hw => by simp [(hf w hw).2]⟩
  obtain ⟨hwrite, hread, hlt⟩ | ⟨hread, hlast⟩ := ha
  · -- The gate of a write is made when the reads have left the queue.
    obtain hd | ⟨w, ds, _, hsub⟩ := h.prepared hwrite hread hlt
    · exact hd
    have hchain : Work.chain gate.slot ds ∈ s.duties :=
      List.mem_filter.mpr ⟨hsub.subset (List.mem_cons_of_mem _ List.mem_cons_self), rfl⟩
    have := h.gated.pledges_eq_zero hchain rfl hg rfl
    omega
  · obtain ⟨a, ha, hk, hr⟩ := hlast.write
    refine ⟨a, ha, fun hqa => hn ⟨⟨e, he, ?_, ht⟩, d, hlast, a, ha, hqa⟩⟩
    exact (hread.of_entry he).1

/-- A blocked slot is dispatched only to be skipped. -/
theorem Blocked.tripped_of_dispatch (hb : s.Blocked x (w :: l) rest) (h : s.Valid)
    (hw : s.work = w :: (l ++ rest)) (hdispatch : w = .dispatch x) :
    s.At x (·.request.tripped = true) := by
  subst hdispatch
  have hd : s.duties = [] ++ .dispatch x :: (l ++ rest).filter Work.isDuty := duties_cons hw rfl
  have hx : .dispatch x ∈ s.duties := by simp [hd]
  have behind {v : Work D} (hv : v ∈ rest) (hduty : v.isDuty = true) :
      v ∈ (l ++ rest).filter Work.isDuty :=
    List.mem_filter.mpr ⟨List.mem_append_right _ hv, hduty⟩
  cases hb with
  | tripped ht => exact ht
  | launch hv hl =>
      exact absurd hl (h.gated.launch_unique hd rfl (behind hv (Work.isDuty_of_launches? hl)))
  | gate hv hgv hg hs =>
      have hzero := h.gated.pledges_eq_zero hx rfl hg hs
      have hduty := List.mem_cons_of_mem (.dispatch x) (behind hv (Work.isDuty_of_gate? hgv))
      have := pledges_pos_of_duty (s := s) (hd ▸ hduty) hgv
      omega
  | standing ha hd => exact absurd (h.gated.held ha hd.occupied) (h.gated.not_held hx)

/-- One item of a call is carried out. -/
structure Carries (s : Machine D) (w : Work D) (l rest items : List (Work D)) (t : Machine D) :
    Prop where
  valid : s.Valid
  work : s.work = w :: (l ++ rest)
  eq : t = exec w { s with work := l ++ rest }
  leaves : Leaves w { s with work := l ++ rest } items t

theorem Carries.run (h : s.Carries w l rest items t) : Run s t :=
  .single (.work (by rw [step?, h.work, h.eq]))

theorem Carries.grows (h : s.Carries w l rest items t) : s.Grows t := h.run.grows h.valid

theorem Carries.follows (h : s.Carries w l rest items t) : Follows w s t :=
  have hf := exec_follows w { s with work := l ++ rest }
  h.eq ▸ ⟨hf.entry, hf.length⟩

/-- The work that there is is carried out item by item. -/
theorem Valid.exists_carries (h : s.Valid) (hs : s.step? = some t) :
    ∃ (w : Work D) (l items : List (Work D)), s.work = w :: l ∧ t.work = items ++ l ∧
      s.Carries w l [] items t := by
  obtain ⟨w, l, hw, rfl⟩ := exists_of_step? hs
  obtain ⟨items, hl⟩ := exec_leaves w { s with work := l }
  refine ⟨w, l, items, hw, hl.work, h, ?_, ?_, ?_⟩ <;> rw [List.append_nil]
  · exact hw
  · exact hl

/-- What holds of the work of an operation in a machine at rest and goes on to hold item by item
holds when all is done. -/
theorem Valid.drain_carries {p : List (Work D) → Machine D → Prop} (h : s.Valid) (hp : p s.work s)
    (hstep : ∀ {t u : Machine D} {w : Work D} {l items : List (Work D)}, s.Amid t →
      t.Carries w l [] items u → p (w :: l) t → p (items ++ l) u) :
    s.drain.Valid ∧ p [] s.drain :=
  Machine.drain_carries (p := fun front t => t.Valid ∧ p front t) ⟨h, hp⟩ (by
    rintro t u w l items ham ht hu hl ⟨hv, hp⟩
    have hc : t.Carries w l [] items u := by
      refine ⟨hv, ?_, ?_, ?_⟩ <;> rwa [List.append_nil]
    exact ⟨hc.run.valid hv, hstep ham hc hp⟩)

/-- A slot stays in the queue unless it is skipped or dispatched. -/
theorem Carries.queued (h : s.Carries w l rest items t) (hq : s.At x (·.stage = .queued))
    (hskip : w ≠ .skip x) (hdispatch : w ≠ .dispatch x) : t.At x (·.stage = .queued) := by
  obtain ⟨e, he, hq⟩ := hq
  obtain ⟨f, hf, hef⟩ := h.follows.entry he
  refine ⟨f, hf, ?_⟩
  obtain hs | hs | hs | rfl := hef.stage
  · exact hs.trans hq
  · exact absurd hs hskip
  · exact absurd hs hdispatch
  · -- A slot whose task is over has left the queue.
    have hw := h.valid.sound.work (w := .vacate x) (by simp [h.work])
    have := (hw.1.of_entry he).1
    simp [((h.valid.sound.entry he).coherent.queued hq).1] at this

/-- A slot that stands goes on to do so. -/
theorem Standing.carry {d : Nat} (hd : s.Standing d (w :: l)) (h : s.Carries w l rest items t) :
    t.Standing d (items ++ l) := by
  have hw := hd.front w List.mem_cons_self
  obtain ⟨e, he, hq⟩ := hd.left
  refine ⟨?_, hd.left.mono h.grows fun he => mt he.queued, fun v hm => ?_⟩
  · obtain ⟨f, hf, hef⟩ := h.follows.entry he
    have hv := hd.occupied
    rw [vacated, he] at hv
    rw [vacated, hf]
    exact (hef.vacancy.resolve_right hw).trans hv
  · obtain hm | hm := List.mem_append.mp hm
    · intro hv
      obtain hv | ⟨a, ha, hqa⟩ := h.leaves.vacates hm hv
      · exact hw hv
      · exact hd.left.of_entry ha hqa
    · exact hd.front v (List.mem_cons_of_mem _ hm)

/-- Whom a slot waits for stays. -/
theorem Carries.awaits {d : Nat} (h : s.Carries w l rest items t) (ha : s.Awaits x d) :
    t.Awaits x d :=
  (awaits_iff h.grows (ha.accepted_left.elim fun _ => Accepted.lt)).mpr ha

/-- What blocks a slot goes on to do so. -/
theorem Blocked.carry (hb : s.Blocked x (w :: l) rest) (h : s.Carries w l rest items t) :
    t.Blocked x (items ++ l) rest := by
  cases hb with
  | tripped ht => exact .tripped (ht.mono h.grows (·.tripped))
  | launch hv hl => exact .launch hv hl
  | gate hv hgv hg hs =>
      obtain ⟨b, hb, hslot⟩ := h.run.gate h.valid hg
      exact .gate hv hgv hb (hslot.trans hs)
  | standing ha hd => exact .standing (h.awaits ha) (hd.carry h)

/-- How far a slot is on its way out of the queue. -/
inductive Outgoing (s : Machine D) (x : Nat) (front : List (Work D)) : Prop
  | queued {w : Work D} (hq : s.At x (·.stage = .queued)) (hw : w ∈ front) (hx : w.takesOut x)
  | leaving (hv : s.At x fun e => e.stage = .vacated ∧ e.task = .unspawned)
      (hw : .openVacancy x ∈ front)
  | gone (hv : s.At x fun e => (e.stage = .vacated ∧ e.isVacated = true) ∧ e.task = .unspawned)

theorem Carries.items_eq {m : List (Work D)} (h : s.Carries w l rest items t)
    (ht : (exec w { s with work := l ++ rest }).work = m ++ (l ++ rest)) : items = m :=
  List.append_cancel_right ((h.leaves.work.symm.trans (congrArg Machine.work h.eq)).trans ht)

/-- A slot that vacated without having been handed to the runtime never will be. -/
theorem Carries.unspawned {p q : Entry D → Prop} (h : s.Carries w l rest items t)
    (hx : s.At x fun e => p e ∧ e.task = .unspawned) (hp : ∀ e, p e → e.stage = .vacated)
    (hpq : ∀ {e f : Entry D}, e.Grows f → p e → q f) :
    t.At x fun e => q e ∧ e.task = .unspawned := by
  obtain ⟨e, he, hpe, hk⟩ := hx
  obtain ⟨f, hf, hef⟩ := h.grows.entry he
  refine ⟨f, hf, hpq hef hpe, hef.skipped ?_ hk⟩
  obtain ⟨_, ht, _⟩ | ⟨hend, _⟩ := (h.valid.sound.entry he).coherent.vacated (hp e hpe)
  · exact ht
  · cases hk.symm.trans hend

/-- A queued slot is skipped. -/
theorem Carries.outgoing_of_skip (h : s.Carries w l rest items t) (he : s.entries[x]? = some e)
    (hq : e.stage = .queued)
    (hw : exec w { s with work := l ++ rest } = { s with work := l ++ rest }.skip x) :
    t.Outgoing x (items ++ l) := by
  have hk := ((h.valid.sound.entry he).coherent.queued hq).1
  have hset := getElem?_set_of_some (b := { e with stage := .vacated, callback := .dropped }) he
  have hskip : exec w { s with work := l ++ rest } = (({ s with work := l ++ rest }.put x
      { e with stage := .vacated, callback := .dropped }).note (.skip e.seq e.kind)).push
        [.openVacancy x] := by
    rw [hw, skip]
    simp only [he, hq, ↓reduceIte]
  obtain rfl := h.items_eq (m := [.openVacancy x]) (by rw [hskip]; rfl)
  refine .leaving ⟨{ e with stage := .vacated, callback := .dropped }, ?_, rfl, hk⟩
    List.mem_cons_self
  rw [h.eq, hskip]
  exact hset

/-- The vacancy of a slot that was skipped opens. -/
theorem Carries.outgoing_of_openVacancy (h : s.Carries (.openVacancy x) l rest items t)
    (hv : s.At x fun e => e.stage = .vacated ∧ e.task = .unspawned) :
    t.Outgoing x (items ++ l) := by
  obtain ⟨e, he, hstage, hk⟩ := hv
  have hset := getElem?_set_of_some (b := { e with vacancy := e.vacancy.settle () }) he
  refine .gone ?_
  rw [h.eq]
  simp only [exec, openVacancy, he]
  split
  · rename_i hset
    exact ⟨e, he, ⟨hstage, hset⟩, hk⟩
  · exact ⟨_, hset, ⟨hstage, Cell.isSettled_settle ..⟩, hk⟩

/-- An item that is to take a queued slot out of the queue does so or leaves another one. -/
theorem Carries.takesOut (h : s.Carries w l rest items t) (hx : w.takesOut x) (hw : w ≠ .skip x) :
    ∃ v ∈ items, v.takesOut x := by
  cases w with
  | cancelSlot i =>
      obtain rfl := hx
      obtain rfl := h.items_eq (work_cancelThen _ _ _)
      exact ⟨.skip i, by simp, rfl⟩
  | supersede i j =>
      obtain rfl := hx
      obtain ⟨⟨e, he, _⟩, f, hf, _⟩ := h.valid.sound.work (w := .supersede i j) (by simp [h.work])
      obtain rfl := h.items_eq (by simp only [exec, supersede, he, hf]; exact work_cancelThen _ _ _)
      exact ⟨.skip i, by simp, rfl⟩
  | cancelEach ids total count =>
      cases ids with
      | nil => cases hx
      | cons i ids =>
          obtain rfl := h.items_eq (work_cancelThen _ _ _)
          obtain rfl | hx := List.mem_cons.mp hx
          · exact ⟨.skip x, by simp, rfl⟩
          · exact ⟨.cancelEach ids total _, by simp; rfl, hx⟩
  | skip i => exact absurd (congrArg Work.skip hx) hw
  | _ => cases hx

/-- A slot goes on on its way, when it is not dispatched but to be skipped. -/
theorem Outgoing.carry (ho : s.Outgoing x (w :: l)) (h : s.Carries w l rest items t)
    (hb : w = .dispatch x → s.At x (·.request.tripped = true)) : t.Outgoing x (items ++ l) := by
  cases ho with
  | @queued v hq hv hx =>
      obtain ⟨e, he, hq⟩ := hq
      by_cases hskip : w = .skip x
      · subst hskip
        exact h.outgoing_of_skip he hq rfl
      by_cases hdispatch : w = .dispatch x
      · subst hdispatch
        have ht := (hb rfl).of_entry he
        apply h.outgoing_of_skip he hq
        simp only [exec, dispatch, he, hq, ht, ↓reduceIte]
      have hqt := h.queued ⟨e, he, hq⟩ hskip hdispatch
      obtain rfl | hv := List.mem_cons.mp hv
      · obtain ⟨v, hv, hx⟩ := h.takesOut hx hskip
        exact .queued hqt (List.mem_append_left _ hv) hx
      · exact .queued hqt (List.mem_append_right _ hv) hx
  | leaving hv hw =>
      obtain rfl | hw := List.mem_cons.mp hw
      · exact h.outgoing_of_openVacancy hv
      · exact .leaving (h.unspawned hv (fun _ hp => hp) (·.vacated)) (List.mem_append_right _ hw)
  | gone hv =>
      exact .gone (h.unspawned hv (fun _ hp => hp.1) fun he hp =>
        ⟨he.vacated hp.1, he.isVacated hp.2⟩)

/-- A blocked slot on its way out of the queue has vacated when the call is over. -/
theorem Valid.drainTo_outgoing (h : s.Valid) (hw : s.work = front ++ rest)
    (ho : s.Outgoing x front) (hb : s.Blocked x front rest) :
    (s.drainTo rest.length).Valid ∧ (s.drainTo rest.length).Outgoing x [] := by
  obtain ⟨_, hv, ho, _⟩ := drainTo_induction
    (p := fun front t => t.Valid ∧ t.Outgoing x front ∧ t.Blocked x front rest) hw ⟨h, ho, hb⟩ (by
      rintro t u w f items ht hu hl ⟨hv, ho, hb⟩
      have hc : t.Carries w f rest items u := ⟨hv, ht, hu, hl⟩
      exact ⟨hc.run.valid hv, ho.carry hc (hb.tripped_of_dispatch hv ht), hb.carry hc⟩)
  exact ⟨hv, ho⟩

/-- What has vacated in that way is given up. -/
theorem Outgoing.of_nil (ho : s.Outgoing x []) (h : s.Valid) : s.At x fun e =>
    e.stage = .vacated ∧ e.isVacated = true ∧ e.task = .unspawned ∧ e.callback = .dropped := by
  cases ho with
  | queued _ hw => cases hw
  | leaving _ hw => cases hw
  | gone hv =>
      obtain ⟨e, he, ⟨hstage, hvac⟩, hk⟩ := hv
      obtain ⟨_, _, hd⟩ | ⟨hend, _⟩ := (h.sound.entry he).coherent.vacated hstage
      · exact ⟨e, he, hstage, hvac, hk, hd⟩
      · cases hk.symm.trans hend

end Machine

end RequestScheduler
