import RequestScheduler.Proofs.Station

/-!
# The pool of permits

A permit is free, or a read's task holds it, or it is on its way from one to the other
(`Metered`). So no permit is ever lost: while tasks wait for one, none is free, and as many reads as
the bound allows hold one.
-/

namespace RequestScheduler

variable {D : Type}

/-- A pool of permits that nobody has used yet, if reads are bounded. -/
def Permits.ofBound (bound : Option Nat) : Option Permits :=
  bound.map fun n => { available := n }

/-- How many permits the task of a request holds. -/
def Station.charge (b : Station D) : Nat :=
  if b.kind = .read ∧ (b.task = .handed ∨ b.task = .working) then 1 else 0

namespace Machine

/-- How many permits the tasks hold. -/
def charges (s : Machine D) : Nat := total (s.stations.map Station.charge)

/-- The request is a read whose task waits for a permit. -/
def Queueing (s : Machine D) (i : Nat) : Prop := s.At i fun e => e.kind = .read ∧ e.task = .queueing

/-- The permits add up to the bound when `k` of them are on their way, and those that are free are
not waited for. -/
structure Metered (bound : Option Nat) (k : Nat) (s : Machine D) : Prop where
  conserved : ∀ {p : Permits}, s.permits = some p → bound = some (p.available + s.charges + k)
  waits : ∀ {p : Permits} {i : Nat}, s.permits = some p → i ∈ p.queue → s.Queueing i
  nodup : ∀ {p : Permits}, s.permits = some p → p.queue.Nodup
  scarce : ∀ {p : Permits}, s.permits = some p → p.queue ≠ [] → p.available = 0
  closed : ∀ {p : Permits}, s.permits = some p → p.closed = true → p.queue = []
  handed : ∀ {i : Nat} {e : Entry D}, s.entries[i]? = some e → e.task = .handed → e.kind = .read

variable {s t : Machine D} {bound : Option Nat} {k k' i : Nat} {e f : Entry D} {p q : Permits}
  {w : Work D} {rest : List (Work D)}

theorem charges_congr (h : t.entries = s.entries) : t.charges = s.charges := by
  rw [charges, charges, stations, stations, h]

/-- One request goes on, and the permits that it holds with it. -/
theorem charges_set (he : s.entries[i]? = some e) (ht : t.entries = s.entries.set i f) :
    t.charges + e.station.charge = s.charges + f.station.charge := by
  have := total_map_set (f := fun a : Entry D => a.station.charge) (b := f) he
  simpa only [charges, stations, List.map_map, ht, Function.comp_def] using this

/-- Nothing has changed that the permits depend on. -/
theorem Metered.same (h : Metered bound k s) (he : t.entries = s.entries)
    (hp : t.permits = s.permits) : Metered bound k t where
  conserved hq := by
    rw [charges_congr he]
    exact h.conserved (hp ▸ hq)
  waits hq hi := (At.congr he).mpr (h.waits (hp ▸ hq) hi)
  nodup hq := h.nodup (hp ▸ hq)
  scarce hq := h.scarce (hp ▸ hq)
  closed hq := h.closed (hp ▸ hq)
  handed hi := h.handed (he ▸ hi)

theorem Metered.steady (h : Metered bound k s) (hst : s.Steady t) : Metered bound k t where
  conserved hq := by
    obtain ⟨l, hl, hb⟩ := hst.kept
    have hzero : total (l.map Station.charge) = 0 := by
      apply Nat.eq_zero_of_not_pos
      intro hpos
      obtain ⟨b, hm, hc⟩ := exists_pos_of_total_pos hpos
      simp [Station.charge, (hb b hm).1] at hc
    rw [charges, hl, List.map_append, total_append, hzero]
    exact h.conserved (hst.permits ▸ hq)
  waits hq hi := by
    obtain ⟨e, he, hk, ht⟩ := h.waits (hst.permits ▸ hq) hi
    obtain ⟨f, hf, hs⟩ := hst.entry he
    obtain ⟨hkind, _, _, htask, _⟩ := Station.mk.inj hs
    exact ⟨f, hf, hkind.trans hk, htask.trans ht⟩
  nodup hq := h.nodup (hst.permits ▸ hq)
  scarce hq := h.scarce (hst.permits ▸ hq)
  closed hq := h.closed (hst.permits ▸ hq)
  handed hf ht := by
    obtain ⟨e, he, hs⟩ | ⟨_, hn, _⟩ := hst.cases hf
    · obtain ⟨hkind, _, _, htask, _⟩ := Station.mk.inj hs
      exact hkind.trans (h.handed he (htask.symm.trans ht))
    · cases hn.symm.trans ht

/-- A task that does not wait for a permit is not in the queue. -/
theorem Metered.not_mem_queue (h : Metered bound k s) (he : s.entries[i]? = some e)
    (ht : e.task ≠ .queueing) : ∀ p, s.permits = some p → i ∉ p.queue :=
  fun _ hp hi => ht (At.of_entry (h.waits hp hi) he).2

/-- The task of one request goes on, and with it the permits that it gains or gives up. -/
theorem Metered.set (h : Metered bound k s) (he : s.entries[i]? = some e)
    (ht : t.entries = s.entries.set i f) (hp : t.permits = s.permits) (hk : f.kind = e.kind)
    (hf : f.task = e.task ∨ f.task ≠ .handed ∧ ∀ p, s.permits = some p → i ∉ p.queue)
    (hc : f.station.charge + k' = e.station.charge + k) : Metered bound k' t where
  conserved {p} hq := by
    have hsum := charges_set he ht
    rw [h.conserved (hp ▸ hq), Option.some.injEq]
    omega
  waits {_ j} hq hj := by
    obtain ⟨a, ha, hka, hta⟩ := h.waits (hp ▸ hq) hj
    by_cases hij : i = j
    · subst hij
      obtain rfl := Option.some.inj (he.symm.trans ha)
      obtain hf | ⟨_, hne⟩ := hf
      · exact .of_set he ht ⟨hk.trans hka, hf.trans hta⟩
      · exact absurd hj (hne _ (hp ▸ hq))
    · exact ⟨a, by rw [ht, List.getElem?_set_ne hij, ha], hka, hta⟩
  nodup hq := h.nodup (hp ▸ hq)
  scarce hq := h.scarce (hp ▸ hq)
  closed hq := h.closed (hp ▸ hq)
  handed {j a} ha hta := by
    obtain ⟨rfl, rfl⟩ | ⟨_, ha⟩ := getElem?_set_cases (ht ▸ ha)
    · obtain hf | ⟨hne, _⟩ := hf
      · exact hk.trans (h.handed he (hf.symm.trans hta))
      · exact absurd hta hne
    · exact h.handed ha hta

/-- Without a bound there is nothing to add up. -/
theorem Metered.unbounded (h : Metered bound k s) (hp : s.permits = none) : Metered bound k' s where
  conserved hq := by cases hp.symm.trans hq
  waits hq := by cases hp.symm.trans hq
  nodup hq := by cases hp.symm.trans hq
  scarce hq := by cases hp.symm.trans hq
  closed hq := by cases hp.symm.trans hq
  handed := h.handed

/-- Nobody waits for a permit that comes back, so it is free. -/
theorem Metered.free (h : Metered bound 1 s) (hp : s.permits = some p) (hq : p.queue = [])
    (ht : t.entries = s.entries)
    (htp : t.permits = some { p with available := p.available + 1 }) : Metered bound 0 t where
  conserved hr := by
    obtain rfl := Option.some.inj (htp.symm.trans hr)
    rw [h.conserved hp, charges_congr ht, Option.some.injEq]
    dsimp only
    omega
  waits hr hi := by
    obtain rfl := Option.some.inj (htp.symm.trans hr)
    simp [hq] at hi
  nodup hr := by
    obtain rfl := Option.some.inj (htp.symm.trans hr)
    exact (h.nodup hp : p.queue.Nodup)
  scarce hr hn := by
    obtain rfl := Option.some.inj (htp.symm.trans hr)
    exact absurd hq hn
  closed hr _ := by
    obtain rfl := Option.some.inj (htp.symm.trans hr)
    exact hq
  handed hi := h.handed (ht ▸ hi)

/-- A permit that comes back is handed to the task that waited longest. -/
theorem Metered.hand {next : Nat} {queue : List Nat} (h : Metered bound 1 s)
    (hp : s.permits = some p) (hq : p.queue = next :: queue) (he : s.entries[next]? = some e)
    (ht : t.entries = s.entries.set next { e with task := .handed })
    (htp : t.permits = some { p with queue }) : Metered bound 0 t := by
  have hnodup : (next :: queue).Nodup := hq ▸ h.nodup hp
  obtain ⟨hnext, hnodup⟩ := List.nodup_cons.mp hnodup
  have hfree : p.available = 0 := h.scarce hp (by simp [hq])
  obtain ⟨hk, hwait⟩ : e.kind = .read ∧ e.task = .queueing :=
    At.of_entry (h.waits hp (hq ▸ List.mem_cons_self)) he
  have hbefore : e.station.charge = 0 := by simp [Entry.station, Station.charge, hwait]
  have hafter : ({ e with task := .handed } : Entry D).station.charge = 1 := by
    simp [Entry.station, Station.charge, hk]
  have hsum := charges_set he ht
  constructor
  case handed =>
    intro i a ha hta
    obtain ⟨rfl, rfl⟩ | ⟨_, ha⟩ := getElem?_set_cases (ht ▸ ha)
    · exact hk
    · exact h.handed ha hta
  all_goals
    intro r
  case waits =>
    intro i hr hi
    obtain rfl := Option.some.inj (htp.symm.trans hr)
    obtain ⟨a, ha, hwait⟩ := h.waits hp (hq ▸ List.mem_cons_of_mem _ hi)
    have hne : next ≠ i := fun hne => hnext (hne ▸ hi)
    exact ⟨a, by rw [ht, List.getElem?_set_ne hne, ha], hwait⟩
  all_goals
    intro hr
    obtain rfl := Option.some.inj (htp.symm.trans hr)
  case conserved =>
    rw [h.conserved hp, Option.some.injEq]
    dsimp only
    omega
  case nodup => exact hnodup
  case scarce => exact fun _ => hfree
  case closed =>
    intro hc
    cases hq.symm.trans (h.closed hp hc)

/-- A permit that comes back is free, or goes on to the next task. -/
theorem Metered.putPermit (h : Metered bound 1 s) : Metered bound 0 s.putPermit := by
  unfold Machine.putPermit
  split
  · rename_i hp
    exact h.unbounded hp
  rename_i p hp
  cases hq : p.queue with
  | nil =>
      rw [Permits.release_of_nil hq]
      exact h.free hp hq rfl (by simp [hq])
  | cons next queue =>
      obtain ⟨e, he, _, ht⟩ := h.waits hp (hq ▸ List.mem_cons_self)
      simp only [Permits.release_of_cons hq, Machine.hand, he, ht, ↓reduceIte]
      exact h.hand hp hq he rfl rfl

/-- A task stops waiting for a permit. -/
theorem Metered.leave (h : Metered bound k s) (ht : t.entries = s.entries)
    (htp : t.permits = s.permits.map (Permits.leave i)) : Metered bound k t where
  conserved hr := by
    obtain ⟨p, hp, rfl⟩ := Option.map_eq_some_iff.mp (htp.symm.trans hr)
    rw [charges_congr ht]
    exact (h.conserved hp : bound = some (p.available + s.charges + k))
  waits hr hj := by
    obtain ⟨p, hp, rfl⟩ := Option.map_eq_some_iff.mp (htp.symm.trans hr)
    exact (At.congr ht).mpr (h.waits hp (List.mem_filter.mp hj).1)
  nodup hr := by
    obtain ⟨p, hp, rfl⟩ := Option.map_eq_some_iff.mp (htp.symm.trans hr)
    exact (h.nodup hp).filter _
  scarce hr hn := by
    obtain ⟨p, hp, rfl⟩ := Option.map_eq_some_iff.mp (htp.symm.trans hr)
    have hq : p.queue ≠ [] := by
      intro hq
      simp [Permits.leave, hq] at hn
    exact (h.scarce hp hq : p.available = 0)
  closed hr hc := by
    obtain ⟨p, hp, rfl⟩ := Option.map_eq_some_iff.mp (htp.symm.trans hr)
    simp [Permits.leave, h.closed hp hc]
  handed hi := h.handed (ht ▸ hi)

/-- The permits are closed, and nobody waits for one any more. -/
theorem Metered.closePermits (h : Metered bound k s) : Metered bound k s.closePermits := by
  unfold Machine.closePermits
  split
  · exact h
  rename_i p hp
  constructor
  case handed => exact h.handed
  all_goals
    intro r
  case waits =>
    intro i hr hi
    obtain rfl := Option.some.inj hr
    cases hi
  all_goals
    intro hr
    obtain rfl := Option.some.inj hr
  case conserved => exact (h.conserved hp : bound = some (p.available + s.charges + k))
  case nodup => exact List.nodup_nil
  case scarce => exact fun hn => absurd rfl hn
  case closed => exact fun _ => rfl

theorem charge_congr (hk : f.kind = e.kind) (ht : f.task = e.task) :
    f.station.charge = e.station.charge :=
  ite_congr (by simp [Entry.station, hk, ht]) (fun _ => rfl) fun _ => rfl

theorem charge_of_task (h : e.task ≠ .handed) (hw : e.task ≠ .working) :
    e.station.charge = 0 := by
  simp [Entry.station, Station.charge, h, hw]

/-- A task that starts its job holds its permit. -/
theorem Metered.start {body : Body D} (h : Metered bound k s) (he : s.entries[i]? = some e)
    (ht : e.task ≠ .queueing)
    (hk : (if e.kind = .read then 1 else 0) + k' = e.station.charge + k) : Metered bound k'
      ((s.note (.spawnBlocking e.kind.taskClass)).put i
        { e with task := .working, callback := .offered body }) := by
  refine h.set he rfl rfl rfl (.inr ⟨by simp, h.not_mem_queue he ht⟩) ?_
  simpa [Entry.station, Station.charge] using hk

/-- A task that finds the permits closed gives back the permit that it was handed. -/
theorem Metered.closeOut (h : Metered bound 0 s) (he : s.entries[i]? = some e)
    (ht : e.task ≠ .working) (hq : ∀ p, s.permits = some p → i ∉ p.queue) :
    Metered bound 0 (s.closeOut i) := by
  unfold Machine.closeOut
  simp only [he]
  refine Metered.steady ?_ (steady_cancelThen i _ _)
  split
  · rename_i hh
    refine Metered.putPermit (h.set he rfl rfl rfl (.inr ⟨by simp, hq⟩) ?_)
    simp [Entry.station, Station.charge, h.handed he hh, hh]
  · rename_i hh
    refine h.set he rfl rfl rfl (.inr ⟨by simp, hq⟩) ?_
    rw [charge_of_task hh ht, charge_of_task (by simp) (by simp)]

/-- A task asks for a permit, and waits for it. -/
theorem Metered.enqueue (h : Metered bound 0 s) (hp : s.permits = some p) (hc : p.closed = false)
    (ha : p.available = 0) (he : s.entries[i]? = some e) (hk : e.kind = .read)
    (hf : e.task = .fresh) (ht : t.entries = s.entries.set i { e with task := .queueing })
    (htp : t.permits = some { p with queue := p.queue ++ [i] }) : Metered bound 0 t := by
  have hi : i ∉ p.queue := h.not_mem_queue he (by simp [hf]) p hp
  have hsum := charges_set he ht
  rw [charge_of_task (by simp [hf]) (by simp [hf]), charge_of_task (by simp) (by simp)] at hsum
  constructor
  case handed =>
    intro j a ha hta
    obtain ⟨rfl, rfl⟩ | ⟨_, ha⟩ := getElem?_set_cases (ht ▸ ha)
    · cases hta
    · exact h.handed ha hta
  all_goals
    intro r
  case waits =>
    intro j hr hj
    obtain rfl := Option.some.inj (htp.symm.trans hr)
    obtain hj | hj := List.mem_append.mp hj
    · obtain ⟨a, ha, hwait⟩ := h.waits hp hj
      have hne : i ≠ j := fun hne => hi (hne ▸ hj)
      exact ⟨a, by rw [ht, List.getElem?_set_ne hne, ha], hwait⟩
    · obtain rfl := List.mem_singleton.mp hj
      exact .of_set he ht ⟨hk, rfl⟩
  all_goals
    intro hr
    obtain rfl := Option.some.inj (htp.symm.trans hr)
  case conserved =>
    rw [h.conserved hp, Option.some.injEq]
    dsimp only
    omega
  case nodup =>
    exact List.nodup_append.mpr ⟨h.nodup hp, (List.pairwise_singleton _ i), fun a hm b hb hab =>
      hi (List.mem_singleton.mp hb ▸ hab ▸ hm)⟩
  case scarce => exact fun _ => ha
  case closed =>
    intro hclosed
    simp [hc] at hclosed

/-- A free permit is taken. -/
theorem Metered.take {n : Nat} (h : Metered bound 0 s) (hp : s.permits = some p)
    (ha : p.available = n + 1) (ht : t.entries = s.entries)
    (htp : t.permits = some { p with available := n }) : Metered bound 1 t := by
  have hq : p.queue = [] := by
    apply Decidable.byContradiction
    intro hq
    cases ha.symm.trans (h.scarce hp hq)
  constructor
  case handed => exact fun hi => h.handed (ht ▸ hi)
  all_goals
    intro r
  case waits =>
    intro i hr hi
    obtain rfl := Option.some.inj (htp.symm.trans hr)
    simp [hq] at hi
  all_goals
    intro hr
    obtain rfl := Option.some.inj (htp.symm.trans hr)
  case conserved =>
    rw [h.conserved hp, charges_congr ht, Option.some.injEq]
    dsimp only
    omega
  case nodup => exact (h.nodup hp : p.queue.Nodup)
  case scarce => exact fun hn => absurd hq hn
  case closed => exact fun _ => hq

/-- Nobody waits for a permit that can no longer be had. -/
theorem Metered.not_mem_of_shut (h : Metered bound k s)
    (hs : s.isShut = true) : ∀ p, s.permits = some p → i ∉ p.queue := by
  intro p hp hi
  simp only [isShut, hp, Option.map_some, Option.getD_some] at hs
  simp [h.closed hp hs] at hi

/-- The runtime polls a task. -/
theorem Metered.poll (h : Metered bound 0 s) (hc : s.Coherent) : Metered bound 0 (s.poll i) := by
  cases he : s.entries[i]? with
  | none =>
      simp only [Machine.poll, he]
      exact h
  | some e =>
  have hpoll := polled (hc he) he
  have fresh (ht : e.task = .fresh) : e.station.charge = 0 ∧ e.task ≠ .queueing :=
    ⟨charge_of_task (by simp [ht]) (by simp [ht]), by simp [ht]⟩
  generalize s.poll i = t at hpoll ⊢
  cases hpoll with
  | idle => exact h
  | closed hs =>
      refine h.closeOut he ?_ (h.not_mem_of_shut hs.2)
      obtain ht | ht | ht := hs.waiting <;> simp [ht]
  | enqueue ht hk hp hclosed ha => exact h.enqueue hp hclosed ha he hk ht rfl rfl
  | @take p n body ht hk hp _ ha hb =>
      have htaken := h.take (t := { s with permits := some { p with available := n } })
        hp ha rfl rfl
      obtain ⟨hzero, hq⟩ := fresh ht
      exact htaken.start he hq (by simp [hk, hzero])
  | start ht hb =>
      obtain ⟨ht, hp⟩ | ⟨ht, _⟩ := ht
      · obtain ⟨hzero, hq⟩ := fresh ht
        cases hk : e.kind with
        | write => exact hk ▸ h.start he hq (by simp [hk, hzero])
        | read =>
            have hone : Metered bound 1 s := h.unbounded (hp hk)
            exact hk ▸ hone.start he hq (by simp [hk, hzero])
      · have hk := h.handed he ht
        exact h.start he (by simp [ht]) (by simp [hk, Entry.station, Station.charge, ht])
  | hear =>
      have hput : Metered bound 0 (s.put i { e with callback := .spent }) :=
        h.set he rfl rfl rfl (.inl rfl) rfl
      exact hput.same rfl rfl

/-- A task ends, and the permit that it holds goes on. -/
theorem Metered.endTask (h : Metered bound 0 s) : Metered bound 0 (s.endTask i) := by
  unfold Machine.endTask
  split
  · exact h
  rename_i e he
  generalize hf : ({ e with task := .ended, callback := e.callback.close } : Entry D) = f
  have hkind : f.kind = e.kind := by rw [← hf]
  have hended : f.task ≠ .handed := by simp [← hf]
  have hzero : f.station.charge = 0 := charge_of_task hended (by simp [← hf])
  dsimp only
  generalize hu : put i f { s with ready := s.ready.remove i } = u
  have hue : u.entries = s.entries.set i f := by rw [← hu]; rfl
  have hup : u.permits = s.permits := by rw [← hu]; rfl
  -- A permit that the task holds comes back.
  have back (hc : e.station.charge = 1) (ht : e.task ≠ .queueing) : Metered bound 0 u.putPermit :=
    (h.set he hue hup hkind (.inr ⟨hended, h.not_mem_queue he ht⟩) (by rw [hzero, hc])).putPermit
  split
  · rename_i hk ht
    exact (back (by simp [Entry.station, Station.charge, hk, ht]) (by simp [ht])).same rfl rfl
  · rename_i hk ht
    exact (back (by simp [Entry.station, Station.charge, hk, ht]) (by simp [ht])).same rfl rfl
  · rename_i hk ht
    have hleft : Metered bound 0 { s with permits := s.permits.map (Permits.leave i) } :=
      h.leave rfl rfl
    have hset : Metered bound 0 { u with permits := u.permits.map (Permits.leave i) } := by
      refine hleft.set he hue (by simp [hup]) hkind (.inr ⟨hended, ?_⟩) ?_
      · intro p hp hi
        obtain ⟨q, _, rfl⟩ := Option.map_eq_some_iff.mp hp
        simp [Permits.leave] at hi
      · rw [hzero, charge_of_task (by simp [ht]) (by simp [ht])]
    exact hset.same rfl rfl
  · rename_i hw hh hq
    have hcharge : e.station.charge = 0 := by
      cases hk : e.kind with
      | write => simp [Entry.station, Station.charge, hk]
      | read => exact charge_of_task (hh hk) (hw hk)
    refine (h.set he hue hup hkind (.inr ⟨hended, fun p hp hi => ?_⟩) ?_).same rfl rfl
    · obtain ⟨hk, ht⟩ := At.of_entry (h.waits hp hi) he
      exact hq hk ht
    · rw [hzero, hcharge]

/-- Work that moves a request keeps the permits together. -/
theorem Metered.exec (h : Metered bound 0 s) (hw : w.seat?.isSome = true)
    (hu : ∀ {i : Nat} {e : Entry D}, s.entries[i]? = some e → e.stage = .queued →
      e.task = .unspawned) : Metered bound 0 (Machine.exec w s) := by
  -- The task stays, whatever becomes of the slot.
  have keep {u : Machine D} {i : Nat} {e f : Entry D} (he : s.entries[i]? = some e)
      (ht : u.entries = s.entries.set i f) (hp : u.permits = s.permits) (hk : f.kind = e.kind)
      (hf : f.task = e.task) : Metered bound 0 u :=
    h.set he ht hp hk (.inl hf) (by rw [charge_congr hk hf])
  have skip (i : Nat) : Metered bound 0 (s.skip i) := by
    unfold Machine.skip
    split
    · exact h
    rename_i e he
    split
    · exact keep he rfl rfl rfl rfl
    · exact h
  cases w with
  | skip i => exact skip i
  | openVacancy i =>
      simp only [Machine.exec, Machine.openVacancy]
      split
      · exact h
      rename_i e he
      split
      · exact h
      · exact keep he rfl rfl rfl rfl
  | vacate i =>
      simp only [Machine.exec, Machine.vacate]
      split
      · exact h
      rename_i e he
      have hput := getElem?_set_of_some (b := { e with stage := .vacated }) he
      simp only [Machine.openVacancy, put, hput, List.set_set]
      split
      · exact keep he rfl rfl rfl rfl
      · exact keep he rfl rfl rfl rfl
  | dispatch i =>
      simp only [Machine.exec, Machine.dispatch]
      split
      · exact h
      rename_i e he
      split
      · rename_i hq
        have ht := hu he hq
        have hzero : e.station.charge = 0 := charge_of_task (by simp [ht]) (by simp [ht])
        have hmem := h.not_mem_queue he (by simp [ht])
        split
        · exact skip i
        · split
          · refine h.set he rfl rfl rfl (.inr ⟨by simp, hmem⟩) ?_
            rw [hzero, charge_of_task (by simp) (by simp)]
          · refine h.set he rfl rfl rfl (.inr ⟨by simp, hmem⟩) ?_
            rw [hzero, charge_of_task (by simp) (by simp)]
      · exact h
  | endTask i => exact h.endTask
  | park i body =>
      simp only [Machine.exec, Machine.park]
      split
      · exact h
      · rename_i e he
        exact keep he rfl rfl rfl rfl
  | finish i result =>
      simp only [Machine.exec, Machine.finish]
      split
      · exact h
      rename_i e he
      split
      · exact keep he rfl rfl rfl rfl
      · exact keep he rfl rfl rfl rfl
  | _ => cases hw

/-- Moves that are busy keep the permits together. -/
theorem Metered.begin {m : Move D} (h : Metered bound 0 s)
    (hp : ∀ {i : Nat} {a : Agenda}, s.ready.pick? i = some a →
      Metered bound 0 ({ s with ready := a }.poll i))
    (hm : m.isBusy = true) : Metered bound 0 (m.begin s) := by
  cases m with
  | shutdown =>
      have hclosed : Metered bound 0 { s with admission := (s.admission.close s.vacated).2 } :=
        h.same rfl rfl
      exact hclosed.closePermits.same rfl rfl
  | poll i =>
      simp only [Move.begin]
      split
      · exact h
      · exact hp ‹_›
  | advance i =>
      simp only [Move.begin, Machine.advance]
      split
      · exact h
      rename_i e he
      have hput {c : Callback D} : Metered bound 0 (s.put i { e with callback := c }) :=
        h.set he rfl rfl rfl (.inl rfl) rfl
      split
      · exact hput.same rfl rfl
      · exact hput.same rfl rfl
      · exact h
  | lose tasks =>
      simp only [Move.begin]
      split
      · exact h.same rfl rfl
      · exact h
  | _ => cases hm

/-- What a machine does keeps the permits together. -/
theorem Metered.apply {a : Act D} (h : Metered bound 0 s) (hc : s.Coherent) :
    Metered bound 0 (a.apply s) := by
  cases hb : a.isBusy with
  | false => exact h.steady (Act.steady hb)
  | true =>
  cases a with
  | item w =>
      have hrest : Metered bound 0 { s with work := s.work.tail } := h.same rfl rfl
      exact hrest.exec hb fun he hq => ((hc he).queued hq).1
  | move m =>
      refine h.begin (fun {i a} _ => ?_) hb
      have hready : Metered bound 0 { s with ready := a } := h.same rfl rfl
      exact hready.poll hc

theorem metered_start (bound : Option Nat) :
    Metered bound 0 (start (Permits.ofBound bound) : Machine D) := by
  constructor
  case handed => simp [start]
  all_goals
    intro p
  case waits =>
    intro i hp hi
    obtain ⟨n, _, rfl⟩ := Option.map_eq_some_iff.mp hp
    cases hi
  all_goals
    intro hp
    obtain ⟨n, rfl, rfl⟩ := Option.map_eq_some_iff.mp hp
  case conserved => simp [charges, stations, start]
  case nodup => exact List.nodup_nil
  case scarce => exact fun hn => absurd rfl hn
  case closed => exact fun _ => rfl

/-- The permits add up in every state of a run. -/
theorem Reachable.metered (h : Reachable (Permits.ofBound bound) s) : Metered bound 0 s :=
  Run.act_induction h (valid_start _) (metered_start bound) fun hu hm _ =>
    hm.apply hu.sound.isCoherent

end Machine

end RequestScheduler
