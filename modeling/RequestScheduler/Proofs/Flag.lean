import RequestScheduler.Proofs.Callbacks
import RequestScheduler.Proofs.Pool
import RequestScheduler.Proofs.Sealing

/-!
# Who sets a flag

The flag of a request is set by its consumer, by whoever holds the indicator that its callback was
handed, or by the manager on behalf of a later write or of a cancellation of all that is
outstanding (`TrippedBy`). A task that finds the permits closed requests the cancellation of its
request too, but by then the flag is set already, since the permits are closed together with
admission.
-/

namespace RequestScheduler

section

variable {D : Type} {a : Machine.Act D} {n : Int64} {p : Option Permits} {i : Nat} {e f : Entry D}

/-- A flag is set by an act that is for the request, or by a task that is stranded. -/
theorem Entry.Edit.tripped (h : e.Edit a n p i f) :
    f.request.tripped = e.request.tripped ∨ a.trips? = some i ∨
      f.request.tripped = true ∧ a = .move (.poll i) ∧ e.Stranded p := by
  cases h with
  | trip ha => exact .inr (.inl ha)
  | stop ha hs => exact .inr (.inr ⟨rfl, ha, hs⟩)
  | _ => exact .inl rfl

/-- Only the publication of an outcome settles a request. -/
theorem Entry.Edit.value (h : e.Edit a n p i f) :
    f.request.cell.value? = e.request.cell.value? ∨ ∃ o, a = .item (.settle i o) := by
  cases h with
  | publish ha => exact .inr ⟨_, ha⟩
  | register => exact .inl (Cell.value?_register _ _)
  | await => exact .inl (Cell.value?_await _ _)
  | take => exact .inl (Cell.value?_take _)
  | _ => exact .inl rfl

/-- A task waits for a permit only where there are permits. -/
theorem Entry.Edit.bounded (h : e.Edit a n p i f) (hf : f.task.isServed = true) :
    e.task.isServed = true ∨ p ≠ none := by
  cases h with
  | hand _ hp | enqueue _ hp => exact .inr hp
  | dispatch _ _ hk => obtain rfl | rfl := hk <;> cases hf
  | endTask | start | stop => cases hf
  | _ => exact .inl hf

end

namespace Machine

variable {D : Type} {s t u : Machine D} {i j x : Nat} {e f : Entry D} {w : Work D} {a : Act D}
  {o : Outcome (Value D)} {permits : Option Permits} {bound : Option Nat}
  {past later before : List (Machine D × Act D)}

/-- Whether there are permits, and whether they are closed. -/
def closing? (s : Machine D) : Option Bool := s.permits.map (·.closed)

theorem closing?_putPermit (s : Machine D) : s.putPermit.closing? = s.closing? := by
  unfold closing? putPermit
  split
  · rfl
  rename_i p hp
  have hkept {r : Option Nat} {q : Permits} (hq : p.release = (r, q)) : q.closed = p.closed := by
    unfold Permits.release at hq
    split at hq <;> exact (Prod.mk.inj hq).2 ▸ rfl
  split
  · rename_i q hq
    simp [hp, hkept hq]
  · rename_i q hq
    unfold hand
    dsimp only
    split
    · simp [hp, hkept hq]
    · split <;> simp [hp, hkept hq, wakeTask, put]

theorem closing?_closeOut (i : Nat) (s : Machine D) : (s.closeOut i).closing? = s.closing? := by
  have last (v : Machine D) : (v.cancelThen i [.endTask i]).closing? = v.closing? := by
    rw [closing?, (steady_cancelThen i _ v).permits, closing?]
  unfold closeOut
  split
  · rfl
  · dsimp only
    split
    · rw [last, closing?_putPermit]
      rfl
    · rw [last]
      rfl

theorem closing?_poll (hc : s.Coherent) (i : Nat) : (s.poll i).closing? = s.closing? := by
  cases he : s.entries[i]? with
  | none => simp only [poll, he]
  | some e =>
  have h := polled (hc he) he
  generalize s.poll i = t at h ⊢
  cases h with
  | closed => exact closing?_closeOut i s
  | enqueue _ _ hp | take _ _ hp => simp [closing?, hp, put, note]
  | _ => rfl

theorem closing?_endTask (i : Nat) (s : Machine D) : (s.endTask i).closing? = s.closing? := by
  unfold endTask
  split
  · rfl
  dsimp only
  split
  · exact closing?_putPermit _
  · exact closing?_putPermit _
  · simp [closing?, push, put, Permits.leave, Function.comp_def]
  · rfl

theorem closing?_exec (hw : w.seat?.isSome = true) (s : Machine D) :
    (exec w s).closing? = s.closing? := by
  cases w with
  | endTask i => exact closing?_endTask i s
  | skip | openVacancy | vacate | dispatch | park | finish =>
      simp only [exec, skip, openVacancy, vacate, dispatch, park, finish]
      repeat' split
      all_goals rfl
  | _ => cases hw

/-- Permits are closed by a shutdown only. -/
theorem Act.closing?_apply (hc : s.Coherent) (a : Act D) :
    (a.apply s).closing? = s.closing? ∨ a = .move .shutdown := by
  obtain hb | hf := (Act.edits hc a).frame
  · cases a with
    | item w => exact .inl (closing?_exec hb { s with work := s.work.tail })
    | move m =>
        cases m with
        | shutdown => exact .inr rfl
        | poll i =>
            left
            simp only [apply, Move.begin]
            split
            · rfl
            · rename_i rest _
              exact closing?_poll (s := { s with ready := rest }) hc i
        | advance | lose =>
            left
            simp only [apply, Move.begin, advance]
            repeat' split
            all_goals rfl
        | _ => cases hb
  · exact .inl (by rw [closing?, hf.permits, closing?])

/-- A record that is closed stays closed. -/
theorem Rule.closed (h : Rule s t) (hc : s.admission.closed = true) :
    t.admission.closed = true := by
  cases h with
  | touch h => exact h.admission ▸ hc
  | close => rfl
  | read _ _ _ _ _ _ hn | write _ _ _ _ _ _ hn => cases hn.symm.trans hc
  | _ => exact hc

theorem Run.closed (h : Run s t) (hs : s.Valid) (hc : s.admission.closed = true) :
    t.admission.closed = true :=
  (h.induct (p := fun u => u.admission.closed = true) hs hc fun _ hc hr => hr.closed hc).2

/-- Tasks wait for permits only where there are some, and admission is closed by the time that the
permits are. -/
structure Serving (s : Machine D) : Prop where
  bounded : ∀ {i : Nat} {e : Entry D}, s.entries[i]? = some e → e.task.isServed = true →
    s.permits ≠ none
  closed : ∀ {p : Permits}, s.permits = some p → p.closed = true → s.admission.closed = true

theorem Serving.apply (h : s.Serving) (hs : s.Valid) (ha : a.Enabled s) : (a.apply s).Serving := by
  have hc : s.Coherent := hs.sound.isCoherent
  constructor
  · intro i f hf hserved
    have hsome : s.permits ≠ none := by
      obtain ⟨e, he, hef⟩ | ⟨kind, body, _, _, rfl⟩ := Act.entry_cases hc hf
      · exact (hef.bounded hserved).elim (h.bounded he) id
      · rw [(newcomer_unspawned s kind body).1] at hserved
        cases hserved
    obtain hkept | rfl := Act.closing?_apply hc a
    · exact fun hn => hsome (by simpa [closing?, hn] using hkept.symm)
    · obtain ⟨p, hp⟩ := Option.ne_none_iff_exists'.mp hsome
      simp [Act.apply, Move.begin, closeDown, closePermits, hp, push, note]
  · intro p hp hclosed
    obtain hkept | rfl := Act.closing?_apply hc a
    · rw [closing?, closing?, hp, Option.map_some, eq_comm, Option.map_eq_some_iff] at hkept
      obtain ⟨q, hq, hqp⟩ := hkept
      exact Run.closed (.single ha.step) hs (h.closed hq (hqp.trans hclosed))
    · exact closed_closeDown s

theorem Reachable.serving (h : Reachable (Permits.ofBound bound) s) : s.Serving := by
  refine Run.act_induction h (valid_start _) ⟨by simp [start], fun {p} hp hc => ?_⟩
    fun hu hp ha => hp.apply hu ha
  obtain ⟨n, _, rfl⟩ := Option.map_eq_some_iff.mp hp
  cases hc

/-- At rest, whoever is stranded was cancelled when admission was closed. -/
theorem Serving.tripped (h : s.Serving) (hp : s.Sealed) (hs : s.Sound) (hw : s.work = [])
    (he : s.entries[i]? = some e) (hst : e.Stranded s.permits) : e.request.tripped = true := by
  obtain ⟨htask, hshut⟩ := hst
  have hc : e.Coherent := (hs.entry he).coherent
  have hsome : s.permits ≠ none := htask.elim And.right (h.bounded he)
  obtain ⟨p, hperm⟩ := Option.ne_none_iff_exists'.mp hsome
  have hclosed : s.admission.closed = true := h.closed hperm (by simpa [hperm] using hshut)
  have hne : e.task ≠ .unspawned ∧ e.task ≠ .ended := by
    obtain ⟨ht, _⟩ | ht := htask
    · simp [ht]
    · constructor <;> intro hn <;> simp [hn, Task.isServed] at ht
  have hadmitted : s.Accepted e.kind i := ⟨e, he, rfl, fun hr => hne.1 (hc.refused hr).1⟩
  obtain hv | ⟨ht, _⟩ | hmem := hp hclosed e.kind i hadmitted
  · have hstage := hs.vacated_of_isVacated he ((vacated_eq_true_iff.mp hv).of_entry he)
    obtain ⟨ht, _⟩ | ⟨ht, _⟩ := hc.vacated hstage
    · exact absurd ht hne.1
    · exact absurd ht hne.2
  · exact ht.of_entry he
  · simp [hw] at hmem

/-- An act sets no flag but that of the request it is for, and only the publication of an outcome
settles a request. -/
theorem Act.Enabled.heeds (ha : a.Enabled s) (h : s.Serving) (hp : s.Sealed) (hs : s.Sound)
    (he : s.entries[i]? = some e) : ∃ f, (a.apply s).entries[i]? = some f ∧
      (f.request.tripped = e.request.tripped ∨ a.trips? = some i) ∧
      (f.request.cell.value? = e.request.cell.value? ∨ ∃ o, a = .item (.settle i o)) := by
  obtain ⟨f, hf, hef⟩ := (Act.edits hs.isCoherent a).entry he
  refine ⟨f, hf, ?_, hef.value⟩
  obtain hkept | htrips | ⟨ht, rfl, hst⟩ := hef.tripped
  · exact .inl hkept
  · exact .inr htrips
  · exact .inl (ht.trans (h.tripped hp hs ha he hst).symm)

/-- The admission of the write `w` found request `i` outstanding. -/
def Overtook (past : List (Machine D × Act D)) (i w : Nat) : Prop :=
  ∃ u a body, (u, a) ∈ past ∧ a.submits? = some (.write, body) ∧ u.admission.closed = false ∧
    w = u.entries.length ∧ u.Outstanding i

/-- A cancellation of all that is outstanding, or a shutdown, found request `i` outstanding. -/
def Collected (past : List (Machine D × Act D)) (i : Nat) : Prop :=
  ∃ u a, (u, a) ∈ past ∧ a.cancelsAll = true ∧ u.Outstanding i

/-- Who sets the flag of request `i`, with what was done before. -/
inductive TrippedBy (past : List (Machine D × Act D)) (s : Machine D) (i : Nat) : Act D → Prop
  /-- The consumer, from outside or in a client's code. -/
  | consumer : TrippedBy past s i (.move (.cancel i))
  | client (hi : (s.held? i).isSome) : TrippedBy past s i (.item (.perform (.cancel i)))
  /-- Whoever holds the indicator that the callback was handed. -/
  | holder (hi : s.hasBegun i = true) : TrippedBy past s i (.move (.trip i))
  /-- The manager, on behalf of a later write. -/
  | successor {w : Nat} (hi : Overtook past i w) : TrippedBy past s i (.item (.supersede i w))
  /-- The manager, with all that was outstanding. -/
  | shutdown (hi : Collected past i) : TrippedBy past s i (.item (.cancelSlot i))
  | bulk {ids : List Nat} {total count : Nat} (hi : Collected past i) :
      TrippedBy past s i (.item (.cancelEach (i :: ids) total count))

/-- Whoever is to be cancelled by the manager was found outstanding. -/
structure Motivated (past : List (Machine D × Act D)) (s : Machine D) : Prop where
  supersede : ∀ {i w : Nat}, .supersede i w ∈ s.work → Overtook past i w
  cancelSlot : ∀ {i : Nat}, .cancelSlot i ∈ s.work → Collected past i
  cancelEach : ∀ {ids : List Nat} {total count : Nat}, .cancelEach ids total count ∈ s.work →
    ∀ i ∈ ids, Collected past i

theorem Motivated.apply (h : Motivated past s) (ha : a.Enabled s) (hs : s.Sound) :
    Motivated ((s, a) :: past) (a.apply s) := by
  have overtook {i w : Nat} (hi : Overtook past i w) : Overtook ((s, a) :: past) i w := by
    obtain ⟨u, b, body, hmem, hi⟩ := hi
    exact ⟨u, b, body, List.mem_cons_of_mem _ hmem, hi⟩
  have collected {i : Nat} (hi : Collected past i) : Collected ((s, a) :: past) i := by
    obtain ⟨u, b, hmem, hi⟩ := hi
    exact ⟨u, b, List.mem_cons_of_mem _ hmem, hi⟩
  constructor
  · intro i w hw
    obtain hw | hw := ha.issued hs hw
    · exact overtook (h.supersede (List.mem_of_mem_tail hw))
    · cases hw with
      | plain hn => cases hn
      | supersede hsub hc hi => exact ⟨s, a, _, List.mem_cons_self, hsub, hc, rfl, hi⟩
  · intro i hw
    obtain hw | hw := ha.issued hs hw
    · exact collected (h.cancelSlot (List.mem_of_mem_tail hw))
    · cases hw with
      | plain hn => cases hn
      | cancelSlot hall hi => exact ⟨s, a, List.mem_cons_self, hall, hi⟩
  · intro ids total count hw i hi
    obtain hw | hw := ha.issued hs hw
    · exact collected (h.cancelEach (List.mem_of_mem_tail hw) i hi)
    · cases hw with
      | plain hn => cases hn
      | collect hall hids => exact ⟨s, a, List.mem_cons_self, hall, hids i hi⟩
      | proceed heq =>
          subst heq
          exact collected (h.cancelEach ha.mem i (List.mem_cons_of_mem _ hi))

theorem History.motivated (h : History permits past s) : Motivated past s := by
  induction h with
  | start => constructor <;> simp [Machine.start]
  | next h ha ih => exact ih.apply ha h.reachable.valid.sound

/-- What is so now and was not so at first became so by some act. -/
theorem History.exists_change {p : Machine D → Prop} (h : History permits past s)
    (hn : ¬p (Machine.start permits)) (hp : p s) :
    ∃ later u a before, past = later ++ (u, a) :: before ∧ History permits before u ∧
      a.Enabled u ∧ ¬p u ∧ p (a.apply u) ∧ Run (a.apply u) s := by
  induction h with
  | start => exact absurd hp hn
  | @next past s a h ha ih =>
      by_cases hs : p s
      · obtain ⟨later, u, b, before, rfl, hu, hb, hnu, hpu, hrun⟩ := ih hs
        exact ⟨(s, a) :: later, u, b, before, rfl, hu, hb, hnu, hpu, hrun.tail ha.step⟩
      · exact ⟨[], s, a, past, rfl, h, ha, hs, hp, .refl⟩

/-- A client cancels nobody whose future it does not hold. -/
theorem entries_cancel (h : s.held? i = none) :
    (Act.apply (.item (.perform (.cancel i))) s).entries = s.entries := by
  have hn : Machine.held? { s with work := s.work.tail } i = none := h
  simp only [Act.apply, exec, perform, hn]
  rfl

/-- A flag that is set was set by someone who may. -/
theorem History.exists_tripped (h : History (Permits.ofBound bound) past s)
    (hx : s.At x (·.request.tripped = true)) :
    ∃ later u a before, past = later ++ (u, a) :: before ∧
      u.At x (·.request.tripped = false) ∧ TrippedBy before u x a := by
  obtain ⟨later, u, a, before, hpast, hu, ha, hn, ⟨f, hf, htf⟩, _⟩ :=
    h.exists_change (p := fun u => u.At x (·.request.tripped = true))
      (by simp [At, Machine.start]) hx
  have hvalid : u.Valid := hu.reachable.valid
  have hmotivated : Motivated before u := hu.motivated
  cases he : u.entries[x]? with
  | none =>
      obtain ⟨kind, body, _, _, rfl⟩ := (Act.edits hvalid.sound.isCoherent a).exists_submits he hf
      unfold newcomer at htf
      split at htf <;> cases htf
  | some e =>
  have hte : e.request.tripped = false := Bool.eq_false_iff.mpr fun hte => hn ⟨e, he, hte⟩
  refine ⟨later, u, a, before, hpast, ⟨e, he, hte⟩, ?_⟩
  obtain ⟨g, hg, hkept | htrips, _⟩ :=
    ha.heeds hu.reachable.serving hu.reachable.sealed hvalid.sound he
  · obtain rfl := Option.some.inj (hf.symm.trans hg)
    cases htf.symm.trans (hkept.trans hte)
  cases a with
  | item w =>
      have hw : w ∈ u.work := ha.mem
      cases w with
      | perform c =>
          cases c with
          | cancel i =>
              obtain rfl := Option.some.inj htrips
              refine .client (Option.isSome_iff_ne_none.mpr fun hnone => ?_)
              rw [entries_cancel hnone, he] at hf
              cases htf.symm.trans (Option.some.inj hf ▸ hte)
          | _ => cases htrips
      | cancelSlot i =>
          obtain rfl := Option.some.inj htrips
          exact .shutdown (hmotivated.cancelSlot hw)
      | supersede i w =>
          obtain rfl := Option.some.inj htrips
          exact .successor (hmotivated.supersede hw)
      | cancelEach ids total count =>
          cases ids with
          | nil => cases htrips
          | cons i ids =>
              obtain rfl := Option.some.inj htrips
              exact .bulk (hmotivated.cancelEach hw i List.mem_cons_self)
      | _ => cases htrips
  | move m =>
      cases m with
      | cancel i =>
          obtain rfl := Option.some.inj htrips
          exact .consumer
      | trip i =>
          obtain rfl := Option.some.inj htrips
          refine .holder ?_
          apply Decidable.byContradiction
          intro hb
          rw [Act.apply, Move.begin, if_neg hb, he] at hf
          cases htf.symm.trans (Option.some.inj hf ▸ hte)
      | _ => cases htrips

end Machine

end RequestScheduler
