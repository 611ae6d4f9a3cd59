import RequestScheduler.Proofs.Drain
import RequestScheduler.Proofs.Pool

/-!
# Nothing is forgotten

Every request that is not over is going to be heard of again: its task is ready, or waits for a
permit, or its callback is on its way, or there is work that ends its task or opens its vacancy
(`Awake`). Who waits for a permit waits for a task that holds one, and who is queued waits for a
request that was admitted earlier. So when nothing is left to be done, no task is ready and no
callback is on its way, every slot has vacated and every request has settled
(`settled_of_quiescent`).
-/

namespace RequestScheduler

variable {D : Type}

/-- Whether the callback was handed to the pool of threads and has not returned. -/
def Callback.isAway : Callback D → Bool
  | .offered _ | .running | .parked _ => true
  | _ => false

namespace Machine

/-- The request waits in the queue for permits. -/
def InQueue (s : Machine D) (i : Nat) : Prop := ∃ p, s.permits = some p ∧ i ∈ p.queue

end Machine

/-- What is going to happen to a request of which nothing is said in the work to be done. -/
def Station.Pending (s : Machine D) (i : Nat) (b : Station D) : Prop :=
  match b.task with
  | .unspawned => b.stage = .vacated → b.vacated = true ∨ .openVacancy i ∈ s.work
  | .fresh | .handed => i ∈ s.ready.tasks
  | .queueing => s.InQueue i ∨ s.isShut = true ∧ i ∈ s.ready.tasks
  | .working => b.callback.isAway = true ∨ (∃ o, b.callback = .returned o) ∧ i ∈ s.ready.tasks
  | .ended => b.vacated = true ∨ .vacate i ∈ s.work

theorem Work.seat?_of_vacates? {w : Work D} {i : Nat} (h : w.vacates? = some i) :
    w.seat? = some i := by
  cases w with
  | openVacancy | vacate | endTask => exact h
  | _ => cases h

namespace Machine

/-- Nobody is forgotten. -/
def Awake (s : Machine D) : Prop := ∀ (i : Nat) (e : Entry D), s.entries[i]? = some e →
  Work.endTask i ∈ s.work ∨ e.station.Pending s i

variable {s t u : Machine D} {bound : Option Nat} {i j : Nat} {e f : Entry D} {w v : Work D}
  {b : Station D} {l rest : List (Work D)}

/-- What keeps request `i` awake stays. -/
structure Keeps (i : Nat) (s t : Machine D) : Prop where
  work : ∀ {v : Work D}, v ∈ s.work → v.vacates? = some i → v ∈ t.work
  ready : i ∈ s.ready.tasks → i ∈ t.ready.tasks
  queue : s.InQueue i → t.InQueue i
  shut : s.isShut = true → t.isShut = true

/-- The permits stay where they are. -/
theorem Keeps.of_permits (hp : t.permits = s.permits)
    (hw : ∀ {v : Work D}, v ∈ s.work → v.vacates? = some i → v ∈ t.work)
    (hr : i ∈ s.ready.tasks → i ∈ t.ready.tasks) : Keeps i s t where
  work := hw
  ready := hr
  queue := by
    rintro ⟨p, hs, hi⟩
    exact ⟨p, hp.trans hs, hi⟩
  shut hs := by rwa [isShut, hp]

theorem Keeps.pending (h : Keeps i s t) (hb : b.Pending s i) : b.Pending t i := by
  unfold Station.Pending at hb ⊢
  cases ht : b.task with
  | unspawned =>
      simp only [ht] at hb ⊢
      exact fun hq => (hb hq).imp_right fun hv => h.work hv rfl
  | fresh | handed =>
      simp only [ht] at hb ⊢
      exact h.ready hb
  | queueing =>
      simp only [ht] at hb ⊢
      exact hb.imp h.queue (And.imp h.shut h.ready)
  | working =>
      simp only [ht] at hb ⊢
      exact hb.imp_right (And.imp_right h.ready)
  | ended =>
      simp only [ht] at hb ⊢
      exact hb.imp_right fun hv => h.work hv rfl

/-- A request whose station is as before stays awake. -/
theorem Keeps.awake (h : Keeps i s t) (hf : f.station = e.station)
    (he : Work.endTask i ∈ s.work ∨ e.station.Pending s i) :
    Work.endTask i ∈ t.work ∨ f.station.Pending t i :=
  he.imp (fun hv => h.work hv rfl) fun hb => hf ▸ h.pending hb

/-- What most acts leave is awake. -/
theorem Awake.steady (h : s.Awake) (hst : s.Steady t)
    (hw : ∀ {v : Work D}, v ∈ s.work → v.vacates?.isSome → v ∈ t.work) : t.Awake := by
  intro i f hf
  obtain ⟨e, he, hs⟩ | ⟨_, ht, hq⟩ := hst.cases hf
  · exact (Keeps.of_permits hst.permits (fun hv hi => hw hv (by simp [hi]))
      fun hi => hst.ready hi).awake hs (h i e he)
  · refine .inr ?_
    have hunspawned : f.station.task = .unspawned := ht
    unfold Station.Pending
    simp only [hunspawned]
    exact fun hv => absurd hv hq

/-- Nothing has changed but one request, and that one is awake. -/
theorem Awake.of_other (h : s.Awake) (ho : ∀ {i : Nat}, i ≠ j → t.entries[i]? = s.entries[i]?)
    (hk : ∀ {i : Nat}, i ≠ j → Keeps i s t)
    (hj : ∀ {f : Entry D}, t.entries[j]? = some f →
      Work.endTask j ∈ t.work ∨ f.station.Pending t j) : t.Awake := by
  intro i f hf
  by_cases hij : i = j
  · exact hij ▸ hj (hij ▸ hf)
  · exact (hk hij).awake rfl (h i f (ho hij ▸ hf))

/-- One entry was replaced, by one that is awake. -/
theorem Awake.set (h : s.Awake) (he : s.entries[j]? = some e) (ht : t.entries = s.entries.set j f)
    (hk : ∀ {i : Nat}, i ≠ j → Keeps i s t)
    (hf : Work.endTask j ∈ t.work ∨ f.station.Pending t j) : t.Awake := by
  refine h.of_other (fun hij => by rw [ht, List.getElem?_set_ne (Ne.symm hij)]) hk ?_
  intro g hg
  rw [ht, getElem?_set_of_some he] at hg
  exact Option.some.inj hg ▸ hf

/-- A permit that comes back reaches one other request at most. -/
structure Hands (s t : Machine D) : Prop where
  length : t.entries.length = s.entries.length
  entry : ∀ {i : Nat} {e : Entry D}, s.entries[i]? = some e → t.entries[i]? = some e ∨
    e.task = .queueing ∧ t.entries[i]? = some { e with task := .handed } ∧ i ∈ t.ready.tasks
  ready : s.ready.tasks ⊆ t.ready.tasks
  queue : ∀ {i : Nat}, s.InQueue i → t.InQueue i ∨ t.At i (·.task = .handed)
  shut : t.isShut = s.isShut
  work : t.work = s.work

theorem Hands.refl (s : Machine D) : s.Hands s :=
  ⟨rfl, .inl, List.Subset.refl _, .inl, rfl, rfl⟩

theorem Hands.push (h : s.Hands t) (items : List (Work D)) :
    (s.push items).Hands (t.push items) :=
  ⟨h.length, h.entry, h.ready, h.queue, h.shut, by simp [Machine.push, h.work]⟩

theorem hands_putPermit (h : Metered bound 1 s) : s.Hands s.putPermit := by
  unfold putPermit
  split
  · exact .refl s
  rename_i p hp
  cases hq : p.queue with
  | nil =>
      rw [Permits.release_of_nil hq]
      refine ⟨rfl, .inl, List.Subset.refl _, ?_, by simp [isShut, hp], rfl⟩
      rintro i ⟨r, hr, hi⟩
      obtain rfl := Option.some.inj (hp.symm.trans hr)
      simp [hq] at hi
  | cons next queue =>
      obtain ⟨e, he, _, ht⟩ := h.waits hp (hq ▸ List.mem_cons_self)
      have hset := getElem?_set_of_some (b := { e with task := .handed }) he
      have hnext : next ∈ (s.ready.add next).tasks := Agenda.mem_tasks_add.mpr (.inr rfl)
      simp only [Permits.release_of_cons hq, hand, he, ht, ↓reduceIte]
      refine ⟨by simp [wakeTask, put], fun {i a} ha => ?_,
        fun i hi => Agenda.mem_tasks_add.mpr (.inl hi), ?_, by simp [isShut, hp, wakeTask, put],
        rfl⟩
      · by_cases hi : next = i
        · subst hi
          obtain rfl := Option.some.inj (he.symm.trans ha)
          exact .inr ⟨ht, hset, hnext⟩
        · exact .inl ((List.getElem?_set_ne hi).trans ha)
      · rintro i ⟨r, hr, hi⟩
        obtain rfl := Option.some.inj (hp.symm.trans hr)
        obtain rfl | hi := List.mem_cons.mp (hq ▸ hi)
        · exact .inr ⟨_, hset, rfl⟩
        · exact .inl ⟨_, rfl, hi⟩

/-- Whoever is handed a permit is made ready. -/
theorem Awake.hands (h : s.Awake) (hh : s.Hands t) : t.Awake := by
  intro i f hf
  have hi : i < s.entries.length := hh.length ▸ (List.getElem?_eq_some_iff.mp hf).1
  obtain ⟨e, he⟩ : ∃ e, s.entries[i]? = some e := ⟨_, List.getElem?_eq_getElem hi⟩
  obtain hsame | ⟨_, hhanded, hready⟩ := hh.entry he
  · obtain rfl := Option.some.inj (hsame.symm.trans hf)
    refine (h i e he).imp (fun hv => hh.work ▸ hv) fun hb => ?_
    by_cases htask : e.station.task = .handed
    · unfold Station.Pending at hb ⊢
      simp only [htask] at hb ⊢
      exact hh.ready hb
    · refine Keeps.pending ⟨fun hv _ => hh.work ▸ hv, fun hr => hh.ready hr, fun hq => ?_,
        fun hs => hh.shut.trans hs⟩ hb
      exact (hh.queue hq).resolve_right fun hg => htask (hg.of_entry hf)
  · obtain rfl := Option.some.inj (hhanded.symm.trans hf)
    exact .inr hready

/-- What a task that is over is waiting for. -/
theorem pending_of_ended (ht : b.task = .ended) (hv : b.vacated = true ∨ .vacate i ∈ s.work) :
    b.Pending s i := by
  unfold Station.Pending
  simp only [ht]
  exact hv

theorem pending_of_unspawned (ht : b.task = .unspawned)
    (hv : b.stage = .vacated → b.vacated = true ∨ .openVacancy i ∈ s.work) : b.Pending s i := by
  unfold Station.Pending
  simp only [ht]
  exact hv

theorem pending_of_ready (ht : b.task = .fresh ∨ b.task = .handed) (hr : i ∈ s.ready.tasks) :
    b.Pending s i := by
  unfold Station.Pending
  obtain ht | ht := ht
  · simp only [ht]
    exact hr
  · simp only [ht]
    exact hr

theorem pending_of_queueing (ht : b.task = .queueing)
    (hq : s.InQueue i ∨ s.isShut = true ∧ i ∈ s.ready.tasks) : b.Pending s i := by
  unfold Station.Pending
  simp only [ht]
  exact hq

theorem pending_of_working (ht : b.task = .working)
    (hc : b.callback.isAway = true ∨ (∃ o, b.callback = .returned o) ∧ i ∈ s.ready.tasks) :
    b.Pending s i := by
  unfold Station.Pending
  simp only [ht]
  exact hc

/-- The callback goes on. It matters only while there is a task to hear it. -/
theorem pending_callback {c : Callback D} (h : b.Pending s i)
    (hc : b.task = .working → c.isAway = true) :
    ({ b with callback := c } : Station D).Pending s i := by
  cases ht : b.task with
  | working => exact pending_of_working rfl (.inl (hc ht))
  | _ => simpa [Station.Pending, ht] using h

/-- A task ends, and its slot is to be vacated. -/
theorem Awake.endTask (h : s.Awake) (hm : Metered bound 0 s) (hw : s.work = .endTask j :: rest)
    (he : s.entries[j]? = some e) : Awake ({ s with work := rest }.endTask j) := by
  unfold Machine.endTask
  simp only [he]
  generalize hf : ({ e with task := .ended, callback := e.callback.close } : Entry D) = f
  generalize hu : put j f { s with work := rest, ready := s.ready.remove j } = u
  have hue : u.entries = s.entries.set j f := by rw [← hu]; rfl
  have hup : u.permits = s.permits := by rw [← hu]; rfl
  have huw : u.work = rest := by rw [← hu]; rfl
  have hur : u.ready = s.ready.remove j := by rw [← hu]; rfl
  have hended : f.task = .ended := by rw [← hf]
  have hzero : f.station.charge = 0 := charge_of_task (by simp [hended]) (by simp [hended])
  have kept {v : Work D} {i : Nat} (hij : i ≠ j) (hv : v ∈ s.work) (hi : v.vacates? = some i) :
      v ∈ u.work := by
    rw [hw] at hv
    rw [huw]
    refine (List.mem_cons.mp hv).resolve_left ?_
    rintro rfl
    exact hij (Option.some.inj hi).symm
  have ready {i : Nat} (hij : i ≠ j) (hi : i ∈ s.ready.tasks) : i ∈ u.ready.tasks :=
    hur ▸ Agenda.mem_tasks_remove.mpr ⟨hi, hij⟩
  -- The task has ended, whoever its permit goes to.
  have ended {p : Option Permits} (hk : ∀ {i : Nat}, i ≠ j →
      Keeps i s ({ u with permits := p }.push [.settle j (.error .cancelled), .vacate j])) :
      Awake ({ u with permits := p }.push [.settle j (.error .cancelled), .vacate j]) :=
    h.set he hue hk (.inr (pending_of_ended hended (.inr (by simp [push]))))
  have stays : Awake (u.push [.settle j (.error .cancelled), .vacate j]) :=
    ended (p := u.permits) fun hij => .of_permits hup
      (fun hv hi => List.mem_append_right _ (kept hij hv hi)) (ready hij)
  have back (hc : e.station.charge = 1) (ht : e.task ≠ .queueing) :
      Awake (u.putPermit.push [.settle j (.error .cancelled), .vacate j]) := by
    have hone : Metered bound 1 u := hm.set he hue hup (by rw [← hf])
      (.inr ⟨by simp [hended], hm.not_mem_queue he ht⟩) (by rw [hzero, hc])
    exact stays.hands ((hands_putPermit hone).push _)
  split
  · rename_i hk ht
    exact back (by simp [Entry.station, Station.charge, hk, ht]) (by simp [ht])
  · rename_i hk ht
    exact back (by simp [Entry.station, Station.charge, hk, ht]) (by simp [ht])
  · refine ended fun {i} hij => ⟨fun hv hi => List.mem_append_right _ (kept hij hv hi), ready hij,
      ?_, fun hs => ?_⟩
    · rintro ⟨p, hp, hi⟩
      exact ⟨p.leave j, by simp [push, hup, hp], by simpa [Permits.leave] using ⟨hi, hij⟩⟩
    · simpa [isShut, push, hup, Function.comp_def, Permits.leave] using hs
  · exact stays

/-- Work for one request leaves what keeps the others awake. -/
theorem Keeps.of_seat (hw : s.work = w :: rest) (hj : w.seat? = some j)
    (ht : t.work = l ++ rest) (hp : t.permits = s.permits)
    (hr : s.ready.tasks ⊆ t.ready.tasks) (hij : i ≠ j) : Keeps i s t := by
  refine .of_permits hp (fun hv hi => ?_) fun hi => hr hi
  rw [hw] at hv
  rw [ht]
  refine List.mem_append_right _ ((List.mem_cons.mp hv).resolve_left ?_)
  rintro rfl
  exact hij (Option.some.inj ((Work.seat?_of_vacates? hi).symm.trans hj))

/-- Nothing that vacates a slot was done. -/
theorem Awake.steady_of_work (h : s.Awake) (hst : s.Steady t) (hw : s.work = w :: rest)
    (hn : w.vacates? = none) (ht : t.work = l ++ rest) : t.Awake := by
  refine h.steady hst fun hv hi => ?_
  rw [hw] at hv
  rw [ht]
  refine List.mem_append_right _ ((List.mem_cons.mp hv).resolve_left ?_)
  rintro rfl
  simp [hn] at hi

theorem Awake.skip (h : s.Awake) (hc : s.Coherent) (hw : s.work = w :: rest)
    (hj : w.seat? = some j) (hn : w.vacates? = none) : Awake ({ s with work := rest }.skip j) := by
  have idle : Awake { s with work := rest } :=
    h.steady_of_work (.same rfl rfl rfl) hw hn (List.nil_append rest).symm
  unfold Machine.skip
  split
  · exact idle
  rename_i e he
  split
  · rename_i hq
    refine h.set he rfl (Keeps.of_seat (l := [.openVacancy j]) hw hj rfl rfl
      (List.Subset.refl _)) (.inr ?_)
    exact pending_of_unspawned ((hc he).queued hq).1 fun _ => .inr List.mem_cons_self
  · exact idle

theorem Awake.dispatch (h : s.Awake) (hc : s.Coherent) (hw : s.work = .dispatch j :: rest) :
    Awake ({ s with work := rest }.dispatch j) := by
  have idle : Awake { s with work := rest } :=
    h.steady_of_work (.same rfl rfl rfl) hw rfl (List.nil_append rest).symm
  unfold Machine.dispatch
  split
  · exact idle
  rename_i e he
  split
  · split
    · exact h.skip hc hw rfl rfl
    · split
      · have hready {i : Nat} (hi : i ∈ s.ready.tasks) : i ∈ (s.ready.add j).tasks :=
          Agenda.mem_tasks_add.mpr (.inl hi)
        refine h.set he rfl (Keeps.of_seat (l := []) hw rfl rfl rfl fun i => hready) (.inr ?_)
        exact pending_of_ready (.inl rfl) (Agenda.mem_tasks_add.mpr (.inr rfl))
      · refine h.set he rfl (Keeps.of_seat (l := [.endTask j]) hw rfl rfl rfl
          (List.Subset.refl _)) (.inl List.mem_cons_self)
  · exact idle

/-- The vacancy of a slot is open by then, if its task is over or never was. -/
theorem Awake.vacated (h : s.Awake) (hw : s.work = w :: rest) (hj : w.seat? = some j)
    (he : s.entries[j]? = some e) (ht : t.entries = s.entries.set j f)
    (htask : f.task = .unspawned ∨ f.task = .ended) (hv : f.isVacated = true)
    (htw : t.work = l ++ rest) (hp : t.permits = s.permits) (hr : t.ready = s.ready) :
    t.Awake := by
  refine h.set he ht (Keeps.of_seat hw hj htw hp (hr ▸ List.Subset.refl _)) (.inr ?_)
  obtain htask | htask := htask
  · exact pending_of_unspawned htask fun _ => .inl hv
  · exact pending_of_ended htask (.inl hv)

/-- A callback goes on that is not heard by then. -/
theorem Awake.callback {c : Callback D} (h : s.Awake) (hw : s.work = w :: rest)
    (hj : w.seat? = some j) (hn : w.vacates? = none) (he : s.entries[j]? = some e)
    (ht : t.entries = s.entries.set j { e with callback := c })
    (hc : e.task = .working → c.isAway = true ∨ (∃ o, c = .returned o) ∧ j ∈ t.ready.tasks)
    (htw : t.work = rest) (hp : t.permits = s.permits) (hr : s.ready.tasks ⊆ t.ready.tasks) :
    t.Awake := by
  have htw' : t.work = [] ++ rest := htw
  refine h.set he ht (Keeps.of_seat hw hj htw' hp hr) ?_
  have kept : Keeps j s t := by
    refine .of_permits hp (fun hv hi => ?_) fun hi => hr hi
    rw [hw] at hv
    rw [htw]
    refine (List.mem_cons.mp hv).resolve_left ?_
    rintro rfl
    cases hi.symm.trans hn
  by_cases hwork : e.task = .working
  · exact .inr (pending_of_working hwork (hc hwork))
  · exact (h j e he).imp (fun hv => kept.work hv rfl) fun hb =>
      pending_callback (kept.pending hb) fun ht => absurd ht hwork

/-- Whoever is awake stays so while work is done. -/
theorem Awake.exec (h : s.Awake) (hs : s.Sound) (hm : Metered bound 0 s) (hw : s.work = w :: rest) :
    Awake (Machine.exec w { s with work := rest }) := by
  have hsound : w.Sound s := hs.work (by simp [hw])
  have idle (hn : w.vacates? = none) : Awake { s with work := rest } :=
    h.steady_of_work (.same rfl rfl rfl) hw hn (List.nil_append rest).symm
  cases hseat : w.seat? with
  | none =>
      have hst : s.Steady ((Act.item w).apply s) :=
        Act.steady (by simp [Act.isBusy, hseat])
      rw [Act.apply_item hw] at hst
      obtain ⟨items, hl⟩ := exec_leaves w { s with work := rest }
      refine h.steady_of_work hst hw ?_ hl.work
      cases hv : w.vacates? with
      | none => rfl
      | some j => cases hseat.symm.trans (Work.seat?_of_vacates? hv)
  | some j =>
  cases w with
  | skip i => exact h.skip hs.isCoherent hw rfl rfl
  | dispatch i => exact h.dispatch hs.isCoherent hw
  | endTask i =>
      obtain ⟨e, he, _⟩ := hsound
      exact h.endTask hm hw he
  | openVacancy i =>
      obtain ⟨⟨e, he, hq⟩, _⟩ := hsound
      have htask : e.task = .unspawned ∨ e.task = .ended :=
        ((hs.entry he).coherent.vacated hq).imp And.left And.left
      simp only [Machine.exec, Machine.openVacancy, he]
      split
      · rename_i hv
        have hset : s.entries = s.entries.set i e := by
          obtain ⟨hl, rfl⟩ := List.getElem?_eq_some_iff.mp he
          exact (List.set_getElem_self hl).symm
        exact h.vacated (l := []) hw rfl he hset htask hv rfl rfl rfl
      · exact h.vacated hw rfl he rfl htask (by simp [Entry.isVacated]) rfl rfl rfl
  | vacate i =>
      obtain ⟨⟨e, he, hk, _⟩, _⟩ := hsound
      have hl := (List.getElem?_eq_some_iff.mp he).1
      simp only [Machine.exec, Machine.vacate, Machine.openVacancy, he, put,
        List.getElem?_set_self hl, List.set_set]
      split
      · rename_i hv
        exact h.vacated (l := []) hw rfl he rfl (.inr hk) hv rfl rfl rfl
      · exact h.vacated hw rfl he rfl (.inr hk) (by simp [Entry.isVacated]) rfl rfl rfl
  | park i body =>
      simp only [Machine.exec, Machine.park]
      split
      · exact idle rfl
      · rename_i e he
        exact h.callback hw rfl rfl he rfl (fun _ => .inl rfl) rfl rfl (List.Subset.refl _)
  | finish i result =>
      simp only [Machine.exec, Machine.finish]
      split
      · exact idle rfl
      rename_i e he
      split
      · refine h.callback hw rfl rfl he rfl (fun _ => .inr ⟨⟨_, rfl⟩, ?_⟩) rfl rfl fun i hi => ?_
        · exact Agenda.mem_tasks_add.mpr (.inr rfl)
        · exact Agenda.mem_tasks_add.mpr (.inl hi)
      · rename_i hk
        exact h.callback hw rfl rfl he rfl (fun ht => absurd ht hk) rfl rfl (List.Subset.refl _)
  | _ => cases hseat

/-- What the poll of a task leaves alone of the others. -/
theorem Keeps.of_pick {a : Agenda} (hp : s.ready.pick? j = some a) (hij : i ≠ j)
    (hw : s.work = []) (htp : t.permits = s.permits) (htr : a.tasks ⊆ t.ready.tasks) :
    Keeps i s t :=
  .of_permits htp (fun hv => by simp [hw] at hv) fun hi =>
    htr ((Agenda.mem_tasks_of_pick? hp).2 hi hij)

/-- At rest, a request is awake by itself. -/
theorem Awake.pending (h : s.Awake) (hw : s.work = []) (he : s.entries[i]? = some e) :
    e.station.Pending s i :=
  (h i e he).resolve_left (by simp [hw])

/-- A task that finds the permits closed is ended. -/
theorem Awake.closeOut {a : Agenda} (h : s.Awake) (hm : Metered bound 0 s) (hw : s.work = [])
    (hp : s.ready.pick? j = some a) (he : s.entries[j]? = some e)
    (hq : ∀ p, s.permits = some p → j ∉ p.queue) :
    Awake ({ s with ready := a }.closeOut j) := by
  unfold Machine.closeOut
  simp only [he]
  generalize hu : put j { e with task := .ended } { s with ready := a } = u
  have hue : u.entries = s.entries.set j { e with task := .ended } := by rw [← hu]; rfl
  have hup : u.permits = s.permits := by rw [← hu]; rfl
  have hur : u.ready = a := by rw [← hu]; rfl
  have stays : Awake (u.push [.settle j (.error .cancelled), .endTask j]) := by
    refine h.set he hue (fun hij => .of_pick hp hij hw hup (hur ▸ List.Subset.refl _)) (.inl ?_)
    simp [push]
  -- The cancellation moves nobody.
  have last {v : Machine D} (hv : Awake (v.push [.settle j (.error .cancelled), .endTask j])) :
      Awake (v.cancelThen j [.endTask j]) := by
    have hst := steady_cancelThen j [.endTask j] v
    refine hv.steady ⟨hst.permits, hst.ready, hst.kept⟩ fun hm _ => ?_
    simpa [push] using hm
  split
  · rename_i hh
    have hone : Metered bound 1 u := by
      refine hm.set he hue hup rfl (.inr ⟨by simp, hq⟩) ?_
      simp [Entry.station, Station.charge, hm.handed he hh, hh]
    exact last (stays.hands ((hands_putPermit hone).push _))
  · exact last stays

/-- A task starts its job. -/
theorem Awake.start {a : Agenda} {p : Option Permits} {body : Body D} (h : s.Awake)
    (hw : s.work = []) (hp : s.ready.pick? j = some a) (he : s.entries[j]? = some e)
    (hq : ∀ {i : Nat}, i ≠ j → s.InQueue i → Machine.InQueue { s with permits := p } i)
    (hs : s.isShut = true → Machine.isShut { s with permits := p } = true) :
    Awake (({ s with ready := a, permits := p }.note (.spawnBlocking e.kind.taskClass)).put j
      { e with task := .working, callback := .offered body }) :=
  h.set he rfl (fun {_} hij => ⟨fun hv => by simp [hw] at hv,
    fun hi => (Agenda.mem_tasks_of_pick? hp).2 hi hij, hq hij, hs⟩)
    (.inr (pending_of_working rfl (.inl rfl)))

/-- Whoever waits for something else is not kept awake by a poll. -/
theorem pending_of_idle {q : Agenda} (h : e.station.Pending s i)
    (ht : e.task = .unspawned ∨ e.task = .ended ∨ e.task = .queueing ∧ s.isShut = false ∨
      e.task = .working ∧ ∀ o, e.callback ≠ .returned o) :
    e.station.Pending { s with ready := q } i := by
  unfold Station.Pending at h ⊢
  cases hk : e.station.task with
  | fresh | handed =>
      have hk : e.task = _ := hk
      simp [hk] at ht
  | unspawned | ended =>
      simp only [hk] at h ⊢
      exact h
  | queueing =>
      have hopen : s.isShut = false := by
        have hk : e.task = .queueing := hk
        simpa [hk] using ht
      simp only [hk] at h ⊢
      exact .inl (h.resolve_right fun hs => by simp [hopen] at hs)
  | working =>
      have hn : ∀ o, e.callback ≠ .returned o := by
        have hk : e.task = .working := hk
        simpa [hk] using ht
      simp only [hk] at h ⊢
      refine .inl (h.resolve_right ?_)
      rintro ⟨⟨o, ho⟩, _⟩
      exact hn o ho

/-- The runtime polls a task that is ready. -/
theorem Awake.poll {a : Agenda} (h : s.Awake) (hc : s.Coherent) (hm : Metered bound 0 s)
    (hw : s.work = []) (hp : s.ready.pick? j = some a) :
    Awake (Machine.poll j { s with ready := a }) := by
  have kept {t : Machine D} {i : Nat} (hij : i ≠ j) (htp : t.permits = s.permits)
      (htr : t.ready = a) : Keeps i s t := .of_pick hp hij hw htp (htr ▸ List.Subset.refl _)
  cases he : s.entries[j]? with
  | none =>
      simp only [Machine.poll, he]
      exact h.of_other (fun _ => rfl) (fun hij => kept hij rfl rfl) fun hf => by
        cases he.symm.trans hf
  | some e =>
  have hpoll := polled (s := { s with ready := a }) (hc he) he
  generalize Machine.poll j { s with ready := a } = t at hpoll ⊢
  cases hpoll with
  | idle ht =>
      refine h.of_other (fun _ => rfl) (fun hij => kept hij rfl rfl) fun {f} hf => .inr ?_
      obtain rfl := Option.some.inj (he.symm.trans hf)
      exact pending_of_idle (h.pending hw he) ht
  | closed hs => exact h.closeOut hm hw hp he (hm.not_mem_of_shut hs.2)
  | @enqueue p _ _ hper hclosed _ =>
      have hin {i : Nat} (hi : i ∈ p.queue ∨ i = j) :
          Machine.InQueue { s with permits := some { p with queue := p.queue ++ [j] } } i :=
        ⟨_, rfl, by simpa using hi⟩
      refine h.set he rfl (fun {i} hij => ⟨fun hv => by simp [hw] at hv, fun hi => ?_, ?_, ?_⟩)
        (.inr (pending_of_queueing rfl (.inl (hin (.inr rfl)))))
      · exact (Agenda.mem_tasks_of_pick? hp).2 hi hij
      · rintro ⟨q, hq, hi⟩
        obtain rfl := Option.some.inj (hper.symm.trans hq)
        exact hin (.inl hi)
      · exact fun hs => by simp [isShut, show s.permits = some p from hper, hclosed] at hs
  | @take p n _ _ _ hper hclosed _ _ =>
      refine h.start hw hp he ?_ fun hs => ?_
      · rintro i _ ⟨q, hq, hi⟩
        obtain rfl := Option.some.inj (hper.symm.trans hq)
        exact ⟨_, rfl, hi⟩
      · simp [isShut, show s.permits = some p from hper, hclosed] at hs
  | start => exact h.start hw hp he (fun _ => id) id
  | hear =>
      refine h.set he rfl (fun hij => kept hij rfl rfl) (.inl ?_)
      simp [push]

/-- A callback begins, or goes on. -/
theorem Awake.advance (h : s.Awake) (hw : s.work = []) : Awake (s.advance j) := by
  unfold Machine.advance
  split
  · exact h
  rename_i e he
  have others {t : Machine D} (htp : t.permits = s.permits) (htr : t.ready = s.ready.pause)
      {i : Nat} : Keeps i s t := by
    refine .of_permits htp (fun hv => by simp [hw] at hv) fun hi => ?_
    rw [htr]
    exact hi
  have running {t : Machine D} (ht : t.entries = s.entries.set j { e with callback := .running })
      (htp : t.permits = s.permits) (htr : t.ready = s.ready.pause) : t.Awake :=
    h.set he ht (fun _ => others htp htr)
      (.inr (pending_callback ((others htp htr).pending (h.pending hw he)) fun _ => rfl))
  split
  · exact running rfl rfl rfl
  · exact running rfl rfl rfl
  · exact h

/-- Whoever waited for a permit is woken when the permits are closed. -/
theorem Awake.closeDown (h : s.Awake) (hw : s.work = []) : Awake s.closeDown := by
  intro i e he
  rw [entries_closeDown] at he
  have hb := h.pending hw he
  unfold Machine.closeDown closePermits
  dsimp only
  split
  · refine .inr (Keeps.pending ?_ hb)
    exact .of_permits rfl (fun hv _ => by simp [hw] at hv) id
  rename_i p hp
  have hp : s.permits = some p := hp
  have hready {i : Nat} (hi : i ∈ s.ready.tasks ∨ i ∈ p.queue) :
      i ∈ (s.ready.addAll p.close.1).tasks := Agenda.mem_tasks_addAll.mpr hi
  refine .inr ?_
  unfold Station.Pending at hb ⊢
  cases ht : e.station.task with
  | unspawned =>
      simp only [ht] at hb ⊢
      exact fun hq => (hb hq).imp_right fun hv => by simp [hw] at hv
  | fresh | handed =>
      simp only [ht] at hb ⊢
      exact hready (.inl hb)
  | queueing =>
      simp only [ht] at hb ⊢
      refine .inr ⟨rfl, hready ?_⟩
      obtain ⟨q, hq, hi⟩ | ⟨_, hi⟩ := hb
      · obtain rfl := Option.some.inj (hp.symm.trans hq)
        exact .inr hi
      · exact .inl hi
  | working =>
      simp only [ht] at hb ⊢
      exact hb.imp_right (And.imp_right fun hi => hready (.inl hi))
  | ended =>
      simp only [ht] at hb ⊢
      exact hb.imp_right fun hv => by simp [hw] at hv

/-- Every task that is dropped with the runtime is going to be ended. -/
theorem Awake.lose {tasks : List Nat} (h : s.Awake) (hw : s.work = [])
    (ht : tasks.Perm s.aliveTasks) :
    Awake ({ s with live := false, ready := {} }.push (tasks.map .endTask)) := by
  intro i e he
  have he : s.entries[i]? = some e := he
  have hb := h.pending hw he
  have alive (ha : e.isAlive = true) : Work.endTask i ∈ tasks.map (Work.endTask (D := D)) :=
    List.mem_map.mpr ⟨i, ht.mem_iff.mpr (mem_aliveTasks.mpr ⟨e, he, ha⟩), rfl⟩
  cases hk : e.task with
  | unspawned =>
      have hs : e.station.task = .unspawned := hk
      simp only [Station.Pending, hs] at hb
      exact .inr (pending_of_unspawned hk fun hq => (hb hq).imp_right (List.mem_append_right _))
  | ended =>
      have hs : e.station.task = .ended := hk
      simp only [Station.Pending, hs] at hb
      exact .inr (pending_of_ended hk (hb.imp_right (List.mem_append_right _)))
  | _ => exact .inl (List.mem_append_left _ (alive (by simp [Entry.isAlive, hk])))

/-- Whoever is awake stays so when a move comes to a machine at rest. -/
theorem Awake.begin (h : s.Awake) (hc : s.Coherent) (hm : Metered bound 0 s) (hw : s.work = [])
    (m : Move D) : Awake (m.begin s) := by
  have none {v : Work D} (hv : v ∈ s.work) : False := by simp [hw] at hv
  cases hbusy : m.isBusy with
  | false => exact h.steady (Act.steady (a := .move m) hbusy) fun hv => (none hv).elim
  | true =>
  cases m with
  | shutdown => exact h.closeDown hw
  | poll i =>
      simp only [Move.begin]
      split
      · exact h
      · rename_i a hp
        exact h.poll hc hm hw hp
  | advance i => exact h.advance hw
  | lose tasks =>
      simp only [Move.begin]
      split
      · rename_i ht
        exact h.lose hw ht.2
      · exact h
  | _ => cases hbusy

/-- Nobody is forgotten in any state of a run. -/
theorem Reachable.awake (h : Reachable (Permits.ofBound bound) s) : s.Awake := by
  have both : Metered bound 0 s ∧ s.Awake := by
    refine Run.act_induction (p := fun s => Metered bound 0 s ∧ s.Awake) h (valid_start _)
      ⟨metered_start bound, fun i e he => by simp [start] at he⟩ fun {u a} hu hp ha => ?_
    obtain ⟨hm, hawake⟩ := hp
    refine ⟨hm.apply hu.sound.isCoherent, ?_⟩
    cases a with
    | item w =>
        obtain ⟨rest, hw⟩ := Act.enabled_item.mp ha
        rw [Act.apply_item hw]
        exact hawake.exec hu.sound hm hw
    | move m => exact hawake.begin hu.sound.isCoherent hm ha m
  exact both.2

/-- Nothing happens by itself any more: nothing is left to be done, no task is ready, and no
callback is on its way. -/
structure Quiescent (s : Machine D) : Prop where
  rest : s.work = []
  ready : s.ready.size = 0
  returned : ∀ e ∈ s.entries, e.callback.isAway = false

theorem Quiescent.not_ready (h : s.Quiescent) : i ∉ s.ready.tasks := by
  rw [Agenda.size_eq_zero_iff.mp h.ready]
  exact List.not_mem_nil

/-- No task holds a permit, or could go on if it had one. -/
theorem Quiescent.idle (h : s.Quiescent) (ha : s.Awake) (he : s.entries[i]? = some e) :
    e.task = .unspawned ∨ e.task = .queueing ∨ e.task = .ended := by
  have hb := ha.pending h.rest he
  unfold Station.Pending at hb
  cases ht : e.station.task with
  | fresh | handed =>
      simp only [ht] at hb
      exact absurd hb h.not_ready
  | working =>
      simp only [ht] at hb
      obtain haway | ⟨_, hready⟩ := hb
      · have hback := h.returned e (List.mem_of_getElem? he)
        exact absurd haway (by simp [Entry.station, hback])
      · exact absurd hready h.not_ready
  | unspawned => exact .inl ht
  | queueing => exact .inr (.inl ht)
  | ended => exact .inr (.inr ht)

/-- Nobody waits for a permit: all of them are free. -/
theorem Quiescent.not_queueing (h : s.Quiescent) (ha : s.Awake) (hm : Metered bound 0 s)
    (hbound : bound ≠ some 0) (he : s.entries[i]? = some e) : e.task ≠ .queueing := by
  intro ht
  have hq : e.station.task = .queueing := ht
  have hb := ha.pending h.rest he
  simp only [Station.Pending, hq] at hb
  obtain ⟨p, hp, hi⟩ | ⟨_, hready⟩ := hb
  · have hfree : p.available = 0 := hm.scarce hp (List.ne_nil_of_mem hi)
    have hsum : bound = some s.charges := by simpa [hfree] using hm.conserved hp
    have hpos : 0 < s.charges := Nat.pos_of_ne_zero fun hz => hbound (hz ▸ hsum)
    obtain ⟨b, hb, hcharge⟩ := exists_pos_of_total_pos hpos
    obtain ⟨a, hmem, rfl⟩ := List.mem_map.mp hb
    obtain ⟨j, ha'⟩ := List.getElem?_of_mem hmem
    have hheld : a.task = .handed ∨ a.task = .working := by
      apply Decidable.byContradiction
      intro hn
      obtain ⟨hn₁, hn₂⟩ := not_or.mp hn
      simp [charge_of_task hn₁ hn₂] at hcharge
    obtain hk | hk | hk := h.idle ha ha'
    all_goals simp [hk] at hheld
  · exact h.not_ready hready

/-- Every task is over. -/
theorem Quiescent.over (h : s.Quiescent) (ha : s.Awake) (hm : Metered bound 0 s)
    (hbound : bound ≠ some 0) (he : s.entries[i]? = some e) :
    e.task = .unspawned ∨ e.task = .ended := by
  obtain ht | ht | ht := h.idle ha he
  · exact .inl ht
  · exact absurd ht (h.not_queueing ha hm hbound he)
  · exact .inr ht

/-- At rest, a slot whose task is over has vacated if it has left the queue. -/
theorem Awake.vacated_of_unqueued (h : s.Awake) (hs : s.Sound) (hw : s.work = [])
    (he : s.entries[i]? = some e) (ht : e.task = .unspawned ∨ e.task = .ended)
    (hr : e.stage ≠ .refused) (hq : e.stage ≠ .queued) : e.isVacated = true := by
  have hc := (hs.entry he).coherent
  have hb := h.pending hw he
  have none {v : Work D} : v ∉ s.work := by simp [hw]
  obtain ht | ht := ht
  · have hk : e.station.task = .unspawned := ht
    have hv : e.stage = .vacated := by
      cases hstage : e.stage with
      | refused => exact absurd hstage hr
      | queued => exact absurd hstage hq
      | dispatched => exact absurd ht (hc.dispatched hstage).1
      | vacated => rfl
    simp only [Station.Pending, hk] at hb
    exact (hb hv).resolve_right none
  · have hk : e.station.task = .ended := ht
    simp only [Station.Pending, hk] at hb
    exact hb.resolve_right none

/-- Whom a request is to wait for was admitted before it. -/
theorem Awaits.lt {x d : Nat} (h : s.Awaits x d) : d < x ∧ ∃ kind, s.Accepted kind d := by
  obtain ⟨_, hd, hlt⟩ | ⟨_, hd⟩ := h
  · exact ⟨hlt, _, hd⟩
  · exact ⟨hd.before, _, hd.write⟩

/-- At rest, every slot has vacated if every task is over. The induction is on the order of
admission: whoever is queued waits for a request from before it. -/
theorem Awake.vacated_of_over (h : s.Awake) (hs : s.Valid) (hw : s.work = [])
    (hover : ∀ {i : Nat} {e : Entry D}, s.entries[i]? = some e →
      e.task = .unspawned ∨ e.task = .ended) {x : Nat} {kind : Kind} (hx : s.Accepted kind x) :
    s.vacated x = true := by
  induction x using Nat.strongRecOn generalizing kind with
  | ind x ih =>
      obtain ⟨e, he, _, hr⟩ := hx
      by_cases hq : e.stage = .queued
      · have hd : s.duties = [] := by rw [duties, hw, List.filter_nil]
        obtain ⟨d, hawaits, hv⟩ := hs.gated.exists_awaits hd ⟨e, he, hq⟩
        obtain ⟨hlt, kind, hacc⟩ := hawaits.lt
        cases hv.symm.trans (ih d hlt hacc)
      · exact vacated_eq_true_iff.mpr
          ⟨e, he, h.vacated_of_unqueued hs.sound hw he (hover he) hr hq⟩

theorem Quiescent.vacated (h : s.Quiescent) (hs : s.Valid) (ha : s.Awake) (hm : Metered bound 0 s)
    (hbound : bound ≠ some 0) {x : Nat} {kind : Kind} (hx : s.Accepted kind x) :
    s.vacated x = true :=
  ha.vacated_of_over hs h.rest (h.over ha hm hbound) hx

/-- At rest, a request has settled if it was refused or its slot has vacated. -/
theorem Valid.settled_of_vacated (h : s.Valid) (hw : s.work = []) (he : s.entries[i]? = some e)
    (hv : e.stage ≠ .refused → e.isVacated = true) : e.request.status.isTerminal = true := by
  have hentry := h.sound.entry he
  rw [Request.isTerminal_status]
  by_cases hr : e.stage = .refused
  · exact ((hentry.refused hr).settled hw).of_entry he
  · exact ((hentry.vacated (hv hr)).settled hw).of_entry he

/-- When nothing happens by itself any more, every slot has vacated and every request has
settled. -/
theorem settled_of_quiescent (h : Reachable (Permits.ofBound bound) s) (hbound : bound ≠ some 0)
    (hq : s.Quiescent) (he : s.entries[i]? = some e) :
    e.request.status.isTerminal = true ∧ (e.stage ≠ .refused → e.isVacated = true) := by
  have hs := h.valid
  have hvacated : e.stage ≠ .refused → e.isVacated = true := by
    intro hr
    have hv := hq.vacated hs h.awake h.metered hbound ⟨e, he, rfl, hr⟩
    exact At.of_entry (vacated_eq_true_iff.mp hv) he
  exact ⟨hs.settled_of_vacated hq.rest he hvacated, hvacated⟩

/-- Two reads with one permit, which the second is handed when the first has returned. -/
def permitted : Machine Unit :=
  (start (Permits.ofBound (some 1))).play 8 [.submit .read {}, .submit .read {}, .poll 0, .poll 1,
    .advance 0, .poll 0, .poll 1, .advance 1, .poll 1]

theorem settled_of_quiescent_permitted : permitted.Quiescent ∧
    permitted.At 1 fun e => e.request.status.isTerminal = true ∧ e.isVacated = true := by
  have hq : permitted.Quiescent := by
    refine ⟨rfl, rfl, fun e he => ?_⟩
    have hall : permitted.entries.all fun e => !e.callback.isAway := rfl
    simpa using List.all_eq_true.mp hall e he
  have hreach : Reachable (Permits.ofBound (some 1)) permitted := run_play 8 _ (start _)
  obtain ⟨hterminal, hvacated⟩ := settled_of_quiescent hreach (by decide) hq (i := 1) rfl
  exact ⟨hq, _, rfl, hterminal, hvacated (by decide)⟩

end Machine

end RequestScheduler
