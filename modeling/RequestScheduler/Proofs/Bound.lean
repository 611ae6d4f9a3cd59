import RequestScheduler.Proofs.Flag
import RequestScheduler.Proofs.Loss

/-!
# A bound on reads

With a bound on concurrent reads there are as many permits as it says, each of them free or held by
the task of a read. A task takes a permit once at most and gives it back when it ends, however it
ends: the permit is free again then, or goes to the task that waited longest (`PassesOn`). While a
task waits, no permit is free. Once the permits are closed nobody who is without one gets one, and
no callback begins any more that has not begun by then (`Entry.Unserved`).
-/

namespace RequestScheduler

variable {D : Type}

/-- Whether the task of the request holds a permit, or was handed one. -/
def Entry.holds (e : Entry D) : Bool :=
  decide (e.kind = .read ∧ (e.task = .handed ∨ e.task = .working))

/-- Whether the callback of a read has been called and has not returned. -/
def Entry.isReading (e : Entry D) : Bool := decide (e.kind = .read) && e.callback.isRunning

theorem Entry.charge_station (e : Entry D) : e.station.charge = if e.holds then 1 else 0 := by
  by_cases hh : e.kind = .read ∧ (e.task = .handed ∨ e.task = .working)
  · simp [Entry.station, Station.charge, Entry.holds, hh]
  · simp [Entry.station, Station.charge, Entry.holds, hh]

theorem Entry.not_holds_of_ended {e : Entry D} (h : e.task = .ended) : e.holds = false := by
  simp [Entry.holds, h]

/-- Where a task comes from: it is as before, or it was polled, ended or dispatched, or it was
handed a permit. -/
theorem Entry.Edit.task {a : Machine.Act D} {n : Int64} {p : Option Permits} {i : Nat}
    {e f : Entry D} (h : e.Edit a n p i f) : f.task = e.task ∨ a = .move (.poll i) ∨
      a = .item (.endTask i) ∧ f.task = .ended ∨
      a = .item (.dispatch i) ∧ e.stage = .queued ∧ (f.task = .fresh ∨ f.task = .ended) ∨
      e.task = .queueing ∧ f.task = .handed := by
  cases h with
  | dispatch ha hq hk => exact .inr (.inr (.inr (.inl ⟨ha, hq, hk⟩)))
  | endTask ha => exact .inr (.inr (.inl ⟨ha, rfl⟩))
  | hand _ _ hq => exact .inr (.inr (.inr (.inr ⟨hq, rfl⟩)))
  | start ha | enqueue ha | stop ha => exact .inr (.inl ha)
  | _ => exact .inl rfl

/-- Where a callback comes from: it is as before, or its task was polled or has ended, or it goes on
or stops performing, or its slot was skipped. -/
theorem Entry.Edit.callback {a : Machine.Act D} {n : Int64} {p : Option Permits} {i : Nat}
    {e f : Entry D} (h : e.Edit a n p i f) : f.callback = e.callback ∨ a = .move (.poll i) ∨
      a = .move (.advance i) ∨ a = .item (.endTask i) ∧ f.callback = e.callback.close ∨
      (∃ w, a = .item w ∧ w.ends? = some i) ∨ e.stage = .queued ∧ f.callback = .dropped := by
  cases h with
  | skip _ hq => exact .inr (.inr (.inr (.inr (.inr ⟨hq, rfl⟩))))
  | endTask ha => exact .inr (.inr (.inr (.inl ⟨ha, rfl⟩)))
  | park ha | answer ha | spend ha => exact .inr (.inr (.inr (.inr (.inl ⟨_, ha, rfl⟩))))
  | start ha | hear ha => exact .inr (.inl ha)
  | resume ha => exact .inr (.inr (.inl ha))
  | _ => exact .inl rfl

/-- A read whose task waits for a permit, or has ended, and whose callback was not called. -/
structure Entry.Unserved (e : Entry D) : Prop where
  read : e.kind = .read
  task : e.task = .fresh ∨ e.task = .queueing ∨ e.task = .handed ∨ e.task = .ended
  callback : e.callback = .dropped ∨ ∃ job, e.callback = .held job

/-- Whoever has not been served can settle as cancelled only. -/
theorem Entry.Unserved.cancelled {e : Entry D} {o : Outcome (Value D)}
    (hx : e.Unserved) (hc : e.Coherent)
    (ho : e.request.cell.value? = some o) : o = .error .cancelled := by
  obtain h | hspent | hr := hc.outcome o ho
  · exact h
  · obtain hd | ⟨job, hd⟩ := hx.callback
    · cases hspent.symm.trans hd
    · cases hspent.symm.trans hd
  · have hend := (hc.refused hr).1
    obtain ht | ht | ht | ht := hx.task <;> cases hend.symm.trans ht

theorem Entry.Unserved.hasBegun {e : Entry D} (hx : e.Unserved) : e.callback.hasBegun = false := by
  obtain hd | ⟨job, hd⟩ := hx.callback <;> rw [hd] <;> rfl

/-- What is ready can be picked. -/
theorem Agenda.exists_pick? {i : Nat} {a : Agenda} (h : i ∈ a.tasks) :
    ∃ b, a.pick? i = some b := by
  unfold pick?
  by_cases ho : i ∈ a.own
  · exact ⟨_, if_pos ho⟩
  · have ha : i ∈ a.arrived := (List.mem_append.mp h).resolve_left ho
    exact ⟨_, by rw [if_neg ho, if_pos ha]⟩

/-- A list has as many members of one sort as another at most, if each has a counterpart at the same
place. -/
theorem countP_le_of_getElem? {α : Type} {p q : α → Bool} {l m : List α}
    (h : ∀ (i : Nat) (a : α), l[i]? = some a → p a = true → ∃ b, m[i]? = some b ∧ q b = true) :
    l.countP p ≤ m.countP q := by
  induction l generalizing m with
  | nil => exact Nat.zero_le _
  | cons a l ih =>
      have htail : l.countP p ≤ m.tail.countP q := ih fun i b hb hp => by
        simpa [List.getElem?_tail] using h (i + 1) b hb hp
      have hsplit : m.tail.countP q ≤ m.countP q := (List.tail_sublist m).countP_le
      cases hp : p a with
      | false => simpa [List.countP_cons, hp] using Nat.le_trans htail hsplit
      | true =>
          obtain ⟨b, hb, hq⟩ := h 0 a rfl hp
          cases m with
          | nil => cases hb
          | cons c m =>
              obtain rfl := Option.some.inj hb
              simpa [List.countP_cons, hp, hq] using htail

namespace Machine

variable {s t u v : Machine D} {n i x : Nat} {e f : Entry D} {w : Work D} {a : Act D}
  {p q : Permits} {bound : Option Nat} {past later before : List (Machine D × Act D)}

/-- Whether the task of a request holds a permit, or was handed one. -/
def holds (s : Machine D) (i : Nat) : Bool := s.entries[i]?.any Entry.holds

theorem holds_eq (he : s.entries[i]? = some e) : s.holds i = e.holds := by
  simp [holds, he]

theorem holds_eq_true_iff : s.holds i = true ↔ s.At i (·.holds = true) := by
  simp [holds, At, Option.any_eq_true]

/-- How many permits are held. -/
def holders (s : Machine D) : Nat := s.entries.countP Entry.holds

theorem charges_eq_holders (s : Machine D) : s.charges = s.holders := by
  unfold charges holders stations
  induction s.entries with
  | nil => rfl
  | cons e l ih =>
      rw [List.map_cons, List.map_cons, total_cons, ih, List.countP_cons, Entry.charge_station]
      omega

/-- Whoever waits for a permit is in the queue, as long as permits can be had. -/
def Lined (s : Machine D) : Prop := ∀ (i : Nat) (e : Entry D), s.entries[i]? = some e →
  e.task = .queueing → s.isShut = true ∨ s.InQueue i

theorem Lined.of_permits (h : s.Lined) (hp : t.permits = s.permits)
    (ht : ∀ (i : Nat) (f : Entry D), t.entries[i]? = some f → f.task = .queueing →
      ∃ e, s.entries[i]? = some e ∧ e.task = .queueing) : t.Lined := by
  intro i f hf hq
  obtain ⟨e, he, hq⟩ := ht i f hf hq
  have hi := h i e he hq
  rwa [isShut, InQueue, ← hp] at hi

theorem Lined.putPermit (h : s.Lined) : s.putPermit.Lined := by
  unfold Machine.putPermit
  split
  · exact h
  rename_i p hp
  have old {i : Nat} {e : Entry D} (he : s.entries[i]? = some e) (hq : e.task = .queueing) :
      p.closed = true ∨ i ∈ p.queue := by
    obtain hs | ⟨r, hr, hi⟩ := h i e he hq
    · exact .inl (by simpa [isShut, hp] using hs)
    · exact .inr (Option.some.inj (hp.symm.trans hr) ▸ hi)
  cases hqueue : p.queue with
  | nil =>
      rw [Permits.release_of_nil hqueue]
      intro i e he hq
      obtain hs | hi := old he hq
      · exact .inl hs
      · simp [hqueue] at hi
  | cons next queue =>
      simp only [Permits.release_of_cons hqueue, Machine.hand]
      -- Whoever is not the next in the queue is still in it.
      have later {i : Nat} {e : Entry D} (he : s.entries[i]? = some e) (hq : e.task = .queueing)
          (hi : i ≠ next) : p.closed = true ∨ i ∈ queue := by
        refine (old he hq).imp_right fun hm => ?_
        rw [hqueue] at hm
        exact (List.mem_cons.mp hm).resolve_left hi
      have queued {t : Machine D} {i : Nat} (htp : t.permits = some { p with queue := queue })
          (hi : p.closed = true ∨ i ∈ queue) : t.isShut = true ∨ t.InQueue i :=
        hi.imp (fun hs => by simpa [isShut, htp] using hs) fun hm => ⟨_, htp, hm⟩
      split
      · rename_i hn
        intro i e he hq
        refine queued rfl (later he hq ?_)
        rintro rfl
        cases hn.symm.trans he
      rename_i b hb
      split
      · intro i e he hq
        obtain ⟨rfl, rfl⟩ | ⟨hi, he⟩ := getElem?_set_cases he
        · cases hq
        · exact queued rfl (later he hq hi)
      · rename_i hnq
        intro i e he hq
        refine queued rfl (later he hq ?_)
        rintro rfl
        obtain rfl := Option.some.inj (hb.symm.trans he)
        exact hnq hq

/-- A task ends, and leaves the queue if it was in it. -/
theorem Lined.endTask (h : s.Lined) (i : Nat) : (s.endTask i).Lined := by
  unfold Machine.endTask
  split
  · exact h
  rename_i e he
  generalize hu : put i { e with task := .ended, callback := e.callback.close }
    { s with ready := s.ready.remove i } = u
  have hue : u.entries = s.entries.set i
      { e with task := .ended, callback := e.callback.close } := by rw [← hu]; rfl
  have hup : u.permits = s.permits := by rw [← hu]; rfl
  have kept {j : Nat} {f : Entry D} (hf : u.entries[j]? = some f) (hq : f.task = .queueing) :
      j ≠ i ∧ s.entries[j]? = some f := by
    obtain ⟨_, rfl⟩ | hf := getElem?_set_cases (hue ▸ hf)
    · cases hq
    · exact hf
  have hu : u.Lined := h.of_permits hup fun j f hf hq => ⟨f, (kept hf hq).2, hq⟩
  dsimp only
  split
  · exact hu.putPermit
  · exact hu.putPermit
  · intro j f hf hq
    obtain ⟨hj, hold⟩ := kept hf hq
    obtain hs | ⟨p, hp, hi⟩ := hu j f hf hq
    · exact .inl (by simpa [isShut, push, Function.comp_def, Permits.leave] using hs)
    · exact .inr ⟨p.leave i, by simp [push, hp], by simpa [Permits.leave] using ⟨hi, hj⟩⟩
  · exact hu

/-- A poll puts a task in the queue that has to wait. -/
theorem Lined.poll (h : s.Lined) (hc : s.Coherent) (i : Nat) : (s.poll i).Lined := by
  cases he : s.entries[i]? with
  | none => simpa only [Machine.poll, he] using h
  | some e =>
  have hpoll := polled (hc he) he
  have hshut := closing?_poll hc i
  generalize s.poll i = t at hpoll hshut ⊢
  have kept {f : Entry D} (ht : t.entries = s.entries.set i f) (hf : f.task ≠ .queueing)
      {j : Nat} {b : Entry D} (hb : t.entries[j]? = some b) (hq : b.task = .queueing) :
      ∃ e, s.entries[j]? = some e ∧ e.task = .queueing := by
    obtain ⟨_, rfl⟩ | ⟨_, hb⟩ := getElem?_set_cases (ht ▸ hb)
    · exact absurd hq hf
    · exact ⟨b, hb, hq⟩
  cases hpoll with
  | idle => exact h
  | closed hs =>
      refine fun j f _ _ => .inl ?_
      rw [isShut, ← closing?, hshut]
      exact hs.2
  | @enqueue p _ _ hp =>
      intro j f hf hq
      obtain ⟨rfl, rfl⟩ | ⟨_, hf⟩ := getElem?_set_cases hf
      · exact .inr ⟨_, rfl, List.mem_append_right _ List.mem_cons_self⟩
      · obtain hs | ⟨r, hr, hi⟩ := h j f hf hq
        · exact .inl (by simpa [isShut, hp, put] using hs)
        · obtain rfl := Option.some.inj (hp.symm.trans hr)
          exact .inr ⟨_, rfl, List.mem_append_left _ hi⟩
  | @take p n body _ _ hp =>
      intro j f hf hq
      obtain ⟨b, hb, hq⟩ := kept rfl (by simp) hf hq
      obtain hs | ⟨r, hr, hi⟩ := h j b hb hq
      · exact .inl (by simpa [isShut, hp, put, note] using hs)
      · obtain rfl := Option.some.inj (hp.symm.trans hr)
        exact .inr ⟨_, rfl, hi⟩
  | start => exact h.of_permits rfl fun _ _ hf hq => kept rfl (by simp) hf hq
  | hear ht =>
      exact h.of_permits rfl fun _ _ hf hq => kept rfl (by simp [ht]) hf hq

/-- Permits come and go when a task is polled or ends, and are closed by a shutdown. -/
theorem Act.permits_apply (hc : s.Coherent) (a : Act D) : (a.apply s).permits = s.permits ∨
    a = .move .shutdown ∨ (∃ i, a = .move (.poll i)) ∨ ∃ i, a = .item (.endTask i) := by
  obtain hb | hf := (Act.edits hc a).frame
  · cases a with
    | item w =>
        cases w with
        | endTask i => exact .inr (.inr (.inr ⟨i, rfl⟩))
        | skip | openVacancy | vacate | dispatch | park | finish =>
            left
            simp only [apply, exec, skip, openVacancy, vacate, dispatch, park, finish]
            repeat' split
            all_goals rfl
        | _ => cases hb
    | move m =>
        cases m with
        | shutdown => exact .inr (.inl rfl)
        | poll i => exact .inr (.inr (.inl ⟨i, rfl⟩))
        | advance | lose =>
            left
            simp only [apply, Move.begin, advance]
            repeat' split
            all_goals rfl
        | _ => cases hb
  · exact .inl hf.permits

theorem Lined.apply (h : s.Lined) (hc : s.Coherent) (a : Act D) : (a.apply s).Lined := by
  have old (hn : ∀ i, a ≠ .move (.poll i)) (i : Nat) (f : Entry D)
      (hf : (a.apply s).entries[i]? = some f) (hq : f.task = .queueing) :
      ∃ e, s.entries[i]? = some e ∧ e.task = .queueing := by
    obtain ⟨e, he, hef⟩ | ⟨kind, body, _, _, rfl⟩ := Act.entry_cases hc hf
    · obtain hsame | hpoll | ⟨_, hend⟩ | ⟨_, _, hend⟩ | ⟨_, hend⟩ := hef.task
      · exact ⟨e, he, hsame.symm.trans hq⟩
      · exact absurd hpoll (hn i)
      · cases hend.symm.trans hq
      · simp [hq] at hend
      · cases hend.symm.trans hq
    · cases (newcomer_unspawned s kind body).1.symm.trans hq
  obtain hp | rfl | ⟨i, rfl⟩ | ⟨i, rfl⟩ := Act.permits_apply hc a
  · by_cases hpoll : ∃ i, a = .move (.poll i)
    · obtain ⟨i, rfl⟩ := hpoll
      simp only [Act.apply, Move.begin]
      split
      · exact h
      · rename_i rest _
        exact Lined.poll (s := { s with ready := rest }) h hc i
    · exact h.of_permits hp (old fun i hi => hpoll ⟨i, hi⟩)
  · refine fun _ _ _ _ => .inl ?_
    simp only [Act.apply, Move.begin, closeDown, closePermits, isShut]
    split
    · rename_i hn
      simp [push, note, show s.permits = none from hn]
    · rfl
  · simp only [Act.apply, Move.begin]
    split
    · exact h
    · rename_i rest _
      exact Lined.poll (s := { s with ready := rest }) h hc i
  · exact Lined.endTask (s := { s with work := s.work.tail }) h i

theorem Reachable.lined {permits : Option Permits} (h : Reachable permits s) : s.Lined :=
  Run.act_induction (p := Lined) h (valid_start permits)
    (fun i e he => by simp [start] at he) fun hu hp _ => hp.apply hu.sound.isCoherent _

/-- Reads that are bounded stay so. -/
theorem Reachable.exists_permits (h : Reachable (Permits.ofBound (some n)) s) :
    ∃ p, s.permits = some p := by
  refine Run.act_induction (p := fun s => ∃ p, s.permits = some p) h (valid_start _) ⟨_, rfl⟩
    fun {u a} hu hp _ => ?_
  obtain ⟨p, hp⟩ := hp
  obtain hkept | rfl := Act.closing?_apply hu.sound.isCoherent a
  · rw [closing?, closing?, hp, Option.map_some, Option.map_eq_some_iff] at hkept
    exact hkept.imp fun _ => And.left
  · simp [Act.apply, Move.begin, closeDown, closePermits, hp, push, note]

/-- Free permits and those that are held make up the bound. -/
theorem Reachable.conserved (h : Reachable (Permits.ofBound (some n)) s) (hp : s.permits = some p) :
    p.available + s.holders = n := by
  have hsum := h.metered.conserved hp
  rw [charges_eq_holders, Option.some.injEq] at hsum
  omega

/-- While a task waits, it is in the queue and no permit is free. -/
theorem Reachable.scarce (h : Reachable (Permits.ofBound bound) s) (hp : s.permits = some p)
    (hc : p.closed = false) (hi : s.At i (·.task = .queueing)) : i ∈ p.queue ∧ p.available = 0 := by
  obtain ⟨e, he, hq⟩ := hi
  obtain hs | ⟨r, hr, hm⟩ := h.lined i e he hq
  · simp [isShut, hp, hc] at hs
  · obtain rfl := Option.some.inj (hp.symm.trans hr)
    exact ⟨hm, h.metered.scarce hp (List.ne_nil_of_mem hm)⟩

/-- The permit of request `x` comes back: it is free, or goes to the task that waited longest. Who
else holds a permit does not change. -/
def PassesOn (s t : Machine D) (x : Nat) : Prop := ∃ p q, s.permits = some p ∧ t.permits = some q ∧
  (p.queue = [] ∧ q = { p with available := p.available + 1 } ∧
      (∀ i, i ≠ x → t.holds i = s.holds i) ∨
    ∃ next queue, p.queue = next :: queue ∧ q = { p with queue } ∧ next ≠ x ∧
      s.holds next = false ∧ t.holds next = true ∧ ∀ i, i ≠ x → i ≠ next → t.holds i = s.holds i)

theorem holds_congr (h : t.entries[i]? = s.entries[i]?) : t.holds i = s.holds i := by
  rw [holds, holds, h]

/-- The entry of `x` is set, and then a permit comes back. -/
theorem passesOn_putPermit (hm : Metered bound 1 u) (hp : s.permits = some p)
    (hu : u.entries = s.entries.set x f) (hup : u.permits = s.permits) (hf : f.task = .ended)
    (hx : x < s.entries.length) (hv : v.permits = u.putPermit.permits)
    (ho : ∀ i, i ≠ x → v.entries[i]? = u.putPermit.entries[i]?) : PassesOn s v x := by
  have hpu : u.permits = some p := hup.trans hp
  have other {i : Nat} (hi : i ≠ x) : u.entries[i]? = s.entries[i]? := by
    rw [hu, List.getElem?_set_ne (Ne.symm hi)]
  cases hq : p.queue with
  | nil =>
      have hput : u.putPermit =
          { u with permits := some { p with available := p.available + 1 } } := by
        simp [Machine.putPermit, hpu, Permits.release_of_nil hq]
      refine ⟨p, _, hp, by rw [hv, hput], .inl ⟨hq, rfl, fun i hi => holds_congr ?_⟩⟩
      rw [ho i hi, hput]
      exact other hi
  | cons next queue =>
      obtain ⟨e, he, hk, ht⟩ := hm.waits hpu (hq ▸ List.mem_cons_self)
      have hne : next ≠ x := by
        rintro rfl
        rw [hu, List.getElem?_set_self hx] at he
        obtain rfl := Option.some.inj he
        cases hf.symm.trans ht
      have hput : u.putPermit.permits = some { p with queue := queue } ∧
          u.putPermit.entries = u.entries.set next { e with task := .handed } := by
        simp [Machine.putPermit, hpu, Permits.release_of_cons hq, Machine.hand, he, ht, wakeTask,
          put]
      refine ⟨p, _, hp, by rw [hv, hput.1], .inr ⟨next, queue, hq, rfl, hne, ?_, ?_, ?_⟩⟩
      · rw [← holds_congr (other hne), holds_eq he]
        simp [Entry.holds, ht]
      · have hset : v.entries[next]? = some { e with task := .handed } := by
          rw [ho next hne, hput.2, getElem?_set_of_some he]
        rw [holds_eq hset]
        simp [Entry.holds, hk]
      · intro i hi hin
        refine holds_congr ?_
        rw [ho i hi, hput.2, List.getElem?_set_ne (Ne.symm hin), other hi]

/-- The task of `x` ends, and its permit comes back. -/
theorem passesOn_endTask (hm : Metered bound 0 s) (hp : s.permits = some p)
    (he : s.entries[x]? = some e) (hh : e.holds = true) :
    PassesOn s ((Act.item (.endTask x)).apply s) x := by
  obtain ⟨hk, ht⟩ := of_decide_eq_true hh
  simp only [Act.apply, exec, Machine.endTask, he]
  generalize hf : ({ e with task := .ended, callback := e.callback.close } : Entry D) = f
  generalize hu : put x f { s with work := s.work.tail, ready := s.ready.remove x } = u
  have hue : u.entries = s.entries.set x f := by rw [← hu]; rfl
  have hup : u.permits = s.permits := by rw [← hu]; rfl
  have hended : f.task = .ended := by rw [← hf]
  have hone : Metered bound 1 u := by
    refine hm.set he hue hup (by rw [← hf]) (.inr ⟨by simp [hended], hm.not_mem_queue he ?_⟩) ?_
    · obtain ht | ht := ht <;> simp [ht]
    · simp [Entry.charge_station, Entry.not_holds_of_ended hended, hh]
  have hback : PassesOn s (u.putPermit.push [.settle x (.error .cancelled), .vacate x]) x :=
    passesOn_putPermit hone hp hue hup hended (List.getElem?_eq_some_iff.mp he).1 rfl fun _ _ => rfl
  obtain ht | ht := ht
  · simpa only [hk, ht] using hback
  · simpa only [hk, ht] using hback

theorem entries_cancelThen_ne (h : i ≠ x) (after : List (Work D)) (s : Machine D) :
    (s.cancelThen x after).entries[i]? = s.entries[i]? := by
  unfold cancelThen trip
  split
  · rfl
  · exact List.getElem?_set_ne (Ne.symm h)

/-- A task that gives up has ended, and the flag of its request is set. -/
theorem entry_closeOut (he : s.entries[x]? = some e) : (s.closeOut x).entries[x]? =
    some { e with task := .ended, request := e.request.trip } := by
  have hset : (s.put x { e with task := .ended }).entries[x]? = some { e with task := .ended } :=
    getElem?_set_of_some he
  have stop {u : Machine D} (hu : u.entries[x]? = some { e with task := .ended }) :
      (u.cancelThen x [.endTask x]).entries[x]? =
        some { e with task := .ended, request := e.request.trip } := by
    simp only [cancelThen, trip, hu]
    exact getElem?_set_of_some hu
  simp only [Machine.closeOut, he]
  split
  · obtain hkept | ⟨_, hq, _⟩ := entry_putPermit hset
    · exact stop hkept
    · cases hq
  · exact stop hset

/-- The task of `x` finds the permits closed, and the one that it was handed comes back. -/
theorem passesOn_closeOut (hm : Metered bound 0 s) (hp : s.permits = some p)
    (hs : s.isShut = true) (he : s.entries[x]? = some e) (hk : e.kind = .read)
    (ht : e.task = .handed) :
    (s.closeOut x).At x (·.task = .ended) ∧ PassesOn s (s.closeOut x) x := by
  refine ⟨⟨_, entry_closeOut he, rfl⟩, ?_⟩
  simp only [Machine.closeOut, he, ht, ↓reduceIte]
  generalize hu : s.put x { e with task := .ended } = u
  have hue : u.entries = s.entries.set x { e with task := .ended } := by rw [← hu]; rfl
  have hup : u.permits = s.permits := by rw [← hu]; rfl
  have hone : Metered bound 1 u := by
    refine hm.set he hue hup rfl (.inr ⟨by simp, hm.not_mem_of_shut hs⟩) ?_
    simp [Entry.charge_station, Entry.holds, hk, ht]
  exact passesOn_putPermit hone hp hue hup rfl (List.getElem?_eq_some_iff.mp he).1
    (steady_cancelThen x _ _).permits fun i hi => entries_cancelThen_ne hi _ _

theorem holds_of_set (he : s.entries[x]? = some e) (ht : t.entries = s.entries.set x f)
    (hf : f.holds = true) : t.holds x = true :=
  holds_eq_true_iff.mpr (.of_set he ht hf)

/-- A poll takes nobody's permit away, unless the permits are closed. -/
theorem passesOn_poll (hm : Metered bound 0 s) (hc : s.Coherent) (hp : s.permits = some p)
    (he : s.entries[x]? = some e) (hh : e.holds = true) (ht : (s.poll x).holds x = false) :
    (s.poll x).At x (·.task = .ended) ∧ PassesOn s (s.poll x) x := by
  obtain ⟨hk, htask⟩ := of_decide_eq_true hh
  have unpolled (hfresh : e.task = .fresh) : False := by simp [hfresh] at htask
  have hpoll := polled (hc he) he
  generalize s.poll x = t at hpoll ht ⊢
  cases hpoll with
  | idle => cases ht.symm.trans ((holds_eq he).trans hh)
  | closed hs =>
      refine passesOn_closeOut hm hp hs.2 he hk ?_
      obtain hw | hw | hw := hs.waiting
      · exact (unpolled hw).elim
      · simp [hw] at htask
      · exact hw
  | enqueue hfresh | take hfresh => exact (unpolled hfresh).elim
  | start =>
      refine absurd (holds_of_set he rfl ?_) (Bool.eq_false_iff.mp ht)
      simp [Entry.holds, hk]
  | hear hw =>
      refine absurd (holds_of_set he rfl ?_) (Bool.eq_false_iff.mp ht)
      simp [Entry.holds, hk, hw]

/-- A task holds its permit until it ends. Then the permit comes back. -/
theorem Act.Enabled.passesOn (ha : a.Enabled s) (h : Reachable (Permits.ofBound (some n)) s)
    (hx : s.holds x = true) (ht : (a.apply s).holds x = false) :
    (a.apply s).At x (·.task = .ended) ∧ PassesOn s (a.apply s) x := by
  have hvalid := h.valid
  have hc : s.Coherent := hvalid.sound.isCoherent
  obtain ⟨p, hp⟩ := h.exists_permits
  obtain ⟨e, he, hh⟩ := holds_eq_true_iff.mp hx
  obtain ⟨hk, htask⟩ := of_decide_eq_true hh
  obtain ⟨f, hf, hef⟩ := (Act.edits hc a).entry he
  have hkind : f.kind = e.kind := by
    obtain ⟨g, hg, heg⟩ := (Run.grows (.single ha.step) hvalid).entry he
    exact Option.some.inj (hf.symm.trans hg) ▸ heg.kind
  have hn : f.holds = false := holds_eq hf ▸ ht
  have kept (hsame : f.task = e.task) : False := by
    simp [Entry.holds, hkind, hk, hsame, htask] at hn
  obtain hsame | rfl | ⟨rfl, hend⟩ | ⟨_, hq, _⟩ | ⟨hq, _⟩ := hef.task
  · exact (kept hsame).elim
  · simp only [Act.apply, Move.begin] at ht ⊢
    split at ht
    · cases hx.symm.trans ht
    · rename_i rest _
      have hm : Metered (some n) 0 { s with ready := rest } := h.metered.same rfl rfl
      exact passesOn_poll (s := { s with ready := rest }) hm hc hp he hh ht
  · exact ⟨⟨f, hf, hend⟩, passesOn_endTask h.metered hp he hh⟩
  · simp [((hc he).queued hq).1] at htask
  · simp [hq] at htask

/-- How often request `x` was given a permit. -/
def takes (past : List (Machine D × Act D)) (x : Nat) : Nat :=
  past.countP fun p => !p.1.holds x && (p.2.apply p.1).holds x

/-- How often request `x` gave its permit back. -/
def gives (past : List (Machine D × Act D)) (x : Nat) : Nat :=
  past.countP fun p => p.1.holds x && !(p.2.apply p.1).holds x

/-- What was taken was given back, or is held. -/
theorem History.takes_eq {permits : Option Permits} (h : History permits past s) (x : Nat) :
    takes past x = gives past x + if s.holds x then 1 else 0 := by
  induction h with
  | start => simp [takes, gives, holds, Machine.start]
  | @next past s a h ha ih =>
      unfold takes gives at ih ⊢
      rw [List.countP_cons, List.countP_cons, ih]
      cases s.holds x <;> cases (a.apply s).holds x <;> simp

/-- Who gave a permit back was a read, and its task has ended: it does so once. -/
theorem History.gives_le (h : History (Permits.ofBound (some n)) past s) (x : Nat) :
    gives past x ≤ 1 ∧
      (0 < gives past x → s.At x fun e => e.kind = .read ∧ e.task = .ended) := by
  induction h with
  | start => simp [gives]
  | @next past s a h ha ih =>
      obtain ⟨hle, hended⟩ := ih
      have hreach := h.reachable
      have hg : s.Grows (a.apply s) := Run.grows (.single ha.step) hreach.valid
      have later (hx : s.At x fun e => e.kind = .read ∧ e.task = .ended) :
          (a.apply s).At x fun e => e.kind = .read ∧ e.task = .ended :=
        hx.mono hg fun hef he => ⟨hef.kind.trans he.1, hef.ended he.2⟩
      unfold gives at hle hended ⊢
      rw [List.countP_cons]
      by_cases hgive : (s.holds x && !(a.apply s).holds x) = true
      · obtain ⟨hs, ht⟩ := Bool.and_eq_true_iff.mp hgive
        obtain ⟨e, he, hh⟩ := holds_eq_true_iff.mp hs
        -- Whoever holds a permit has not given it back before.
        have hnone : past.countP (fun p => p.1.holds x && !(p.2.apply p.1).holds x) = 0 := by
          refine Nat.eq_zero_of_not_pos fun hpos => ?_
          have hend := (hended hpos).of_entry he
          simp [Entry.not_holds_of_ended hend.2] at hh
        obtain ⟨⟨f, hf, hend⟩, _⟩ := ha.passesOn hreach hs (by simpa using ht)
        obtain ⟨g, hgx, heg⟩ := hg.entry he
        obtain rfl := Option.some.inj (hf.symm.trans hgx)
        refine ⟨by simp [hnone, hgive], fun _ => ⟨f, hf, ?_, hend⟩⟩
        exact heg.kind.trans (of_decide_eq_true hh).1
      · simp only [hgive, Bool.false_eq_true, ↓reduceIte, Nat.add_zero]
        exact ⟨hle, fun hpos => later (hended hpos)⟩

/-- A request takes one permit at most, and a write takes none. -/
theorem History.takes_le (h : History (Permits.ofBound (some n)) past s) (x : Nat) :
    takes past x ≤ 1 ∧ (s.At x (·.kind = .write) → takes past x = 0) := by
  obtain ⟨hle, hended⟩ := h.gives_le x
  have hsum := h.takes_eq x
  have held (hx : s.holds x = true) :
      gives past x = 0 ∧ ¬s.At x (·.kind = .write) := by
    obtain ⟨e, he, hh⟩ := holds_eq_true_iff.mp hx
    have hk := (of_decide_eq_true hh).1
    refine ⟨Nat.eq_zero_of_not_pos fun hpos => ?_, fun hw => ?_⟩
    · simp [Entry.not_holds_of_ended ((hended hpos).of_entry he).2] at hh
    · cases hk.symm.trans (hw.of_entry he)
  cases hx : s.holds x with
  | true =>
      obtain ⟨hnone, hread⟩ := held hx
      simp only [hx, ↓reduceIte, hnone] at hsum
      exact ⟨by omega, fun hw => absurd hw hread⟩
  | false =>
      simp only [hx, Bool.false_eq_true, ↓reduceIte, Nat.add_zero] at hsum
      refine ⟨by omega, fun hw => hsum.trans (Nat.eq_zero_of_not_pos fun hpos => ?_)⟩
      obtain ⟨e, he, hk, _⟩ := hended hpos
      cases hk.symm.trans (hw.of_entry he)

/-- On a live runtime a callback that performs is heard by a task at work. -/
theorem Awake.working_of_isRunning (h : s.Awake) (hs : s.Sound) (hl : s.live = true)
    (he : s.entries[i]? = some e) (hr : e.callback.isRunning = true) : e.task = .working := by
  have hentry := hs.entry he
  have hc : e.Coherent := hentry.coherent
  have hbegun := Callback.hasBegun_of_isRunning hr
  have hover := Callback.isOver_of_isRunning hr
  have waiting (ht : e.task = .fresh ∨ e.task = .queueing ∨ e.task = .handed) : False := by
    obtain ⟨body, hb⟩ := hc.waiting ht
    simp [hb, Callback.isRunning] at hr
  cases ht : e.task with
  | unspawned => exact absurd ht (hc.begun hbegun)
  | fresh => exact (waiting (.inl ht)).elim
  | queueing => exact (waiting (.inr (.inl ht))).elim
  | handed => exact (waiting (.inr (.inr ht))).elim
  | working => rfl
  | ended =>
      have hstation : e.station.task = .ended := ht
      obtain hending | hpending := h i e he
      · have hspent := (hs.work hending).of_entry he |>.2 hl hbegun
        simp [hspent, Callback.isRunning] at hr
      · simp only [Station.Pending, hstation] at hpending
        obtain hv | hvacate := hpending
        · have := hentry.isOver hl (hs.vacated_of_isVacated he hv)
          cases hover.symm.trans this
        · have := ((hs.work hvacate).1.of_entry he).2.2 hl
          cases hover.symm.trans this

theorem live_putPermit (s : Machine D) : s.putPermit.live = s.live :=
  (touches_putPermit s).1.live

theorem live_cancelThen (i : Nat) (after : List (Work D)) (s : Machine D) :
    (s.cancelThen i after).live = s.live := by
  unfold cancelThen trip
  split
  · rfl
  · rfl

theorem live_submit (kind : Kind) (body : Body D) (after : List (Work D)) (s : Machine D) :
    (s.submit kind body after).live = s.live := by
  unfold submit
  dsimp only
  split
  · rfl
  · cases kind with
    | read =>
        dsimp only
        split
        · rfl
        · rfl
    | write => rfl

theorem live_openVacancy (i : Nat) (after : List (Work D)) (s : Machine D) :
    (s.openVacancy i after).live = s.live := by
  unfold openVacancy
  repeat' split
  all_goals rfl

/-- The runtime stays while work is done. -/
theorem live_exec (w : Work D) (s : Machine D) : (exec w s).live = s.live := by
  cases w with
  | perform c =>
      cases c with
      | submit => exact live_submit ..
      | cancel =>
          simp only [exec, perform]
          split
          · rfl
          · exact live_cancelThen ..
      | onSettled =>
          simp only [exec, perform, onSettled]
          repeat' split
          all_goals rfl
      | _ => rfl
  | run k => cases k <;> rfl
  | cancelSlot => exact live_cancelThen ..
  | supersede =>
      simp only [exec, supersede]
      split
      · exact live_cancelThen ..
      · rfl
  | cancelEach ids =>
      cases ids with
      | nil => rfl
      | cons => exact live_cancelThen ..
  | openVacancy => exact live_openVacancy ..
  | vacate =>
      simp only [exec, vacate]
      split
      · rfl
      · exact live_openVacancy ..
  | endTask =>
      simp only [exec, endTask]
      split
      · rfl
      split
      · exact live_putPermit _
      · exact live_putPermit _
      · rfl
      · rfl
  | settle | skip | dispatch | await | release | handOver | park | finish =>
      simp only [exec, settle, skip, dispatch, await, release, handOver, park, finish]
      repeat' split
      all_goals rfl
  | _ => rfl

theorem live_poll (hc : s.Coherent) (i : Nat) : (s.poll i).live = s.live := by
  cases he : s.entries[i]? with
  | none => simp only [poll, he]
  | some e =>
  have h := polled (hc he) he
  generalize s.poll i = t at h ⊢
  cases h with
  | closed =>
      simp only [closeOut, he]
      split
      · exact (live_cancelThen ..).trans (live_putPermit _)
      · exact live_cancelThen ..
  | _ => rfl

/-- Moves that are not busy keep the runtime. -/
theorem live_begin {m : Move D} (hm : m.isBusy = false) (s : Machine D) :
    (m.begin s).live = s.live := by
  cases m with
  | submit => exact live_submit ..
  | cancel =>
      simp only [Move.begin]
      split
      · exact live_cancelThen ..
      · rfl
  | onSettled | trip | awaitRequest | takeOutcome | dropFuture | release =>
      simp only [Move.begin, onSettled, trip, awaitRequest, takeOutcome, dropFuture, modify,
        releaseJob]
      repeat' split
      all_goals rfl
  | shutdown | poll | advance | lose => cases hm
  | _ => rfl

theorem live_closePermits (s : Machine D) : s.closePermits.live = s.live := by
  unfold closePermits
  split <;> rfl

/-- The runtime stays, unless it goes away with all its tasks. -/
theorem Act.live_apply (hc : s.Coherent) (a : Act D) : (a.apply s).live = s.live ∨
    ∃ tasks, a = .move (.lose tasks) ∧ s.live = true ∧ tasks.Perm s.aliveTasks := by
  cases a with
  | item w => exact .inl (live_exec w _)
  | move m =>
      cases m with
      | lose tasks =>
          by_cases hl : s.live = true ∧ tasks.Perm s.aliveTasks
          · exact .inr ⟨tasks, rfl, hl⟩
          · exact .inl (by rw [apply, Move.begin, if_neg hl])
      | poll =>
          left
          simp only [apply, Move.begin]
          split
          · rfl
          · rename_i rest _
            exact live_poll (s := { s with ready := rest }) hc _
      | shutdown => exact .inl (live_closePermits _)
      | advance =>
          left
          simp only [apply, Move.begin, advance]
          repeat' split
          all_goals rfl
      | _ => exact .inl (live_begin rfl s)

/-- Once the runtime is lost, whoever is afoot is about to be ended. -/
theorem Reachable.stripped (h : Reachable (Permits.ofBound bound) s) (hl : s.live = false) :
    s.Stripped := by
  induction h with
  | refl => cases hl
  | @tail u t hrun hstep ih =>
      have hu : Reachable (Permits.ofBound bound) u := hrun
      cases hlive : u.live with
      | false => exact (Run.stripped (.single hstep) hu.valid (ih hlive)).1
      | true =>
          obtain ⟨a, ha, rfl⟩ := step_iff.mp hstep
          obtain hsame | ⟨tasks, rfl, _, hperm⟩ := Act.live_apply hu.valid.sound.isCoherent a
          · cases hl.symm.trans (hsame.trans hlive)
          · exact hu.awake.stripped hu.valid.sound ha hlive hperm

/-- How many reads perform. -/
def readers (s : Machine D) : Nat := s.entries.countP Entry.isReading

/-- Once the runtime is lost nobody begins to perform who did not. -/
theorem Stripped.reading (h : s.Stripped) (hs : s.Sound) (ha : a.Enabled s)
    (hg : s.Grows (a.apply s)) (hf : (a.apply s).entries[i]? = some f)
    (hr : f.isReading = true) : ∃ e, s.entries[i]? = some e ∧ e.isReading = true := by
  obtain ⟨hk, hrun⟩ := Bool.and_eq_true_iff.mp hr
  obtain ⟨e, he, hef⟩ | ⟨kind, body, _, _, rfl⟩ := Act.entry_cases hs.isCoherent hf
  · obtain ⟨g, hgx, heg⟩ := hg.entry he
    obtain rfl := Option.some.inj (hf.symm.trans hgx)
    refine ⟨e, he, Bool.and_eq_true_iff.mpr ⟨heg.kind ▸ hk, ?_⟩⟩
    obtain hsame | rfl | rfl | ⟨_, hclose⟩ | ⟨w, rfl, hw⟩ | ⟨_, hdrop⟩ := hef.callback
    · rwa [← hsame]
    · -- A task that is polled at rest is over.
      have hover := h.over ha he
      simp only [Act.apply, Move.begin] at hf
      split at hf
      · exact Option.some.inj (he.symm.trans hf) ▸ hrun
      · rename_i rest _
        obtain ht | ht := hover
        · simp only [poll, he, ht] at hf
          exact Option.some.inj hf ▸ hrun
        · simp only [poll, he, ht] at hf
          exact Option.some.inj hf ▸ hrun
    · simp only [Act.apply, Move.begin, advance, he] at hf
      cases hc : e.callback with
      | offered body => exact absurd (.inr ⟨body, hc⟩) (h.not_afoot ha he)
      | parked => rfl
      | _ =>
          simp only [hc] at hf
          obtain rfl := Option.some.inj (he.symm.trans hf)
          exact hc ▸ hrun
    · rw [hclose] at hrun
      cases hc : e.callback with
      | held | offered | latched => simp [hc, Callback.close, Callback.isRunning] at hrun
      | _ => simpa [hc, Callback.close] using hrun
    · rw [(hs.performing ha.mem hw).of_entry he]
      rfl
    · rw [hdrop] at hrun
      cases hrun
  · unfold newcomer at hrun
    split at hrun
    · cases hrun
    · cases hrun

/-- No more reads perform than the bound allows, even if the runtime was lost meanwhile. -/
theorem Reachable.readers_le (h : Reachable (Permits.ofBound (some n)) s) : s.readers ≤ n := by
  have step {t : Machine D} (ht : Reachable (Permits.ofBound (some n)) t) (hl : t.live = true) :
      t.readers ≤ n := by
    obtain ⟨p, hp⟩ := ht.exists_permits
    have hsum := ht.conserved hp
    have hle : t.readers ≤ t.holders := List.countP_mono_left fun e hmem hr => by
      obtain ⟨i, he⟩ := List.getElem?_of_mem hmem
      obtain ⟨hk, hrun⟩ := Bool.and_eq_true_iff.mp hr
      have hw := ht.awake.working_of_isRunning ht.valid.sound hl he hrun
      simpa [Entry.holds, hw] using hk
    omega
  induction h with
  | refl => exact Nat.zero_le n
  | @tail u t hrun hstep ih =>
      have hu : Reachable (Permits.ofBound (some n)) u := hrun
      have ht : Reachable (Permits.ofBound (some n)) t := .tail hrun hstep
      cases hlt : t.live with
      | true => exact step ht hlt
      | false =>
      obtain ⟨a, ha, rfl⟩ := step_iff.mp hstep
      have hs := hu.valid.sound
      cases hlu : u.live with
      | true =>
          obtain hsame | ⟨tasks, rfl, hlose⟩ := Act.live_apply hs.isCoherent a
          · cases hlt.symm.trans (hsame.trans hlu)
          · have hentries : ((Act.move (.lose tasks)).apply u).entries = u.entries := by
              rw [Act.apply, Move.begin, if_pos hlose]
              rfl
            rw [readers, hentries]
            exact ih
      | false =>
          have hg := Run.grows (.single hstep) hu.valid
          exact Nat.le_trans (countP_le_of_getElem? fun i f hf hr =>
            (hu.stripped hlu).reading hs ha hg hf hr) ih

/-- Whoever waits for a permit has not been served. -/
theorem Coherent.unserved (hc : s.Coherent) (he : s.entries[x]? = some e) (hk : e.kind = .read)
    (ht : e.task = .fresh ∨ e.task = .queueing ∨ e.task = .handed) : e.Unserved where
  read := hk
  task := ht.imp_right fun ht => ht.imp_right .inl
  callback := by
    obtain ⟨body, hb⟩ := (hc he).waiting ht
    exact .inr ⟨_, hb⟩

/-- A poll serves nobody once the permits are closed: it ends the task of whoever waits for one. -/
theorem unserved_poll (hc : s.Coherent) (hp : s.closing? = some true)
    (he : s.entries[x]? = some e) (hx : e.Unserved) :
    (s.poll x).At x fun f => f.Unserved ∧ f.task = .ended := by
  obtain ⟨p, hp, hclosed⟩ := Option.map_eq_some_iff.mp hp
  have hpoll := polled (hc he) he
  generalize s.poll x = t at hpoll ⊢
  cases hpoll with
  | idle ht =>
      refine ⟨e, he, hx, ?_⟩
      obtain ht | ht | ⟨_, hopen⟩ | ⟨ht, _⟩ := ht
      · simpa [ht] using hx.task
      · exact ht
      · simp [isShut, hp, hclosed] at hopen
      · simpa [ht] using hx.task
  | closed =>
      exact ⟨_, entry_closeOut he, ⟨hx.read, .inr (.inr (.inr rfl)), hx.callback⟩, rfl⟩
  | enqueue _ _ hq hopen | take _ _ hq hopen =>
      obtain rfl := Option.some.inj (hp.symm.trans hq)
      cases hclosed.symm.trans hopen
  | start ht =>
      obtain ⟨_, hnone⟩ | ⟨_, hopen⟩ := ht
      · cases hp.symm.trans (hnone hx.read)
      · simp [isShut, hp, hclosed] at hopen
  | hear hw =>
      have htask := hx.task
      simp [hw] at htask

/-- Whoever has not been served when the permits are closed is not served by anything that a machine
does. -/
theorem Act.Enabled.unserved (ha : a.Enabled s) (hs : s.Valid) (hp : s.closing? = some true)
    (hx : s.At x Entry.Unserved) : (a.apply s).At x Entry.Unserved := by
  have hc : s.Coherent := hs.sound.isCoherent
  obtain ⟨e, he, hu⟩ := hx
  have hspawned : e.task ≠ .unspawned := by
    obtain ht | ht | ht | ht := hu.task <;> simp [ht]
  have hunqueued : e.stage ≠ .queued := fun hq => hspawned ((hc he).queued hq).1
  by_cases hpoll : a = .move (.poll x)
  · subst hpoll
    simp only [Act.apply, Move.begin]
    split
    · exact ⟨e, he, hu⟩
    · rename_i rest _
      exact (unserved_poll (s := { s with ready := rest }) hc hp he hu).imp fun _ hf => hf.1
  by_cases hadvance : a = .move (.advance x)
  · subst hadvance
    simp only [Act.apply, Move.begin, advance, he]
    obtain hd | ⟨job, hd⟩ := hu.callback
    · simpa only [hd] using ⟨e, he, hu⟩
    · simpa only [hd] using ⟨e, he, hu⟩
  obtain ⟨f, hf, hef⟩ := (Act.edits hc a).entry he
  obtain ⟨g, hg, heg⟩ := (Run.grows (.single ha.step) hs).entry he
  obtain rfl := Option.some.inj (hf.symm.trans hg)
  refine ⟨f, hf, heg.kind.trans hu.read, ?_, ?_⟩
  · obtain hsame | h | ⟨_, hend⟩ | ⟨_, hq, _⟩ | ⟨_, hhanded⟩ := hef.task
    · rw [hsame]
      exact hu.task
    · exact absurd h hpoll
    · exact .inr (.inr (.inr hend))
    · exact absurd hq hunqueued
    · exact .inr (.inr (.inl hhanded))
  · obtain hsame | h | h | ⟨_, hclose⟩ | ⟨w, rfl, hw⟩ | ⟨hq, _⟩ := hef.callback
    · rw [hsame]
      exact hu.callback
    · exact absurd h hpoll
    · exact absurd h hadvance
    · left
      obtain hd | ⟨job, hd⟩ := hu.callback <;> rw [hclose, hd] <;> rfl
    · have hrunning := (hs.sound.performing ha.mem hw).of_entry he
      obtain hd | ⟨job, hd⟩ := hu.callback
      · cases hrunning.symm.trans hd
      · cases hrunning.symm.trans hd
    · exact absurd hq hunqueued

/-- Permits that are closed stay closed. -/
theorem Act.closing?_apply_closed (hc : s.Coherent) (hp : s.closing? = some true) (a : Act D) :
    (a.apply s).closing? = some true := by
  obtain hkept | rfl := Act.closing?_apply hc a
  · exact hkept.trans hp
  · obtain ⟨p, hp, _⟩ := Option.map_eq_some_iff.mp hp
    simp [Act.apply, Move.begin, closeDown, closePermits, closing?, hp, push, note, Permits.close]

theorem Run.unserved (h : Run s t) (hs : s.Valid) (hp : s.closing? = some true)
    (hx : s.At x Entry.Unserved) : t.closing? = some true ∧ t.At x Entry.Unserved :=
  Run.act_induction (p := fun u => u.closing? = some true ∧ u.At x Entry.Unserved) h hs ⟨hp, hx⟩
    fun {_ a} hu hp ha =>
      ⟨Act.closing?_apply_closed hu.sound.isCoherent hp.1 a, ha.unserved hu hp.1 hp.2⟩

/-- A callback that has not been called has not begun. -/
theorem Valid.not_started (h : s.Valid) (hx : s.At x (·.callback.hasBegun = false)) (b : Bool) :
    .start x b ∉ s.events := by
  intro hstart
  obtain ⟨e, he, hb⟩ := hx
  have hpos : 0 < s.starts.count x :=
    List.count_pos_iff.mpr (List.mem_filterMap.mpr ⟨_, hstart, rfl⟩)
  rw [h.sound.starts, hasBegun, he] at hpos
  simp [hb] at hpos

/-- A task that was not served and is polled when the permits are closed has ended then, and its
slot vacates. -/
theorem Reachable.vacated_poll (h : Reachable (Permits.ofBound bound) s) (hw : s.work = [])
    (hp : s.closing? = some true) (he : s.entries[x]? = some e) (hx : e.Unserved)
    (hr : x ∈ s.ready.tasks) : ((Move.poll x).apply s).vacated x = true := by
  have hvalid := h.valid
  obtain ⟨rest, hpick⟩ := Agenda.exists_pick? hr
  have hstep : Step s ((Move.poll x).begin s) := .move _ hw
  have hended : ((Move.poll x).begin s).At x (·.task = .ended) := by
    simp only [Move.begin, hpick]
    have hc : Coherent { s with ready := rest } := hvalid.sound.isCoherent
    exact (unserved_poll (s := { s with ready := rest }) hc hp he hx).imp fun _ hf => hf.2
  have hdrain : Run ((Move.poll x).begin s) ((Move.poll x).apply s) := run_drain _
  have hreach : Reachable (Permits.ofBound bound) ((Move.poll x).apply s) :=
    .trans h (.head hstep hdrain)
  obtain ⟨f, hf, hend⟩ :=
    hended.mono (hdrain.grows (Run.valid (.single hstep) hvalid)) (·.ended)
  have hstation : f.station.task = .ended := hend
  have hpending := hreach.awake.pending (work_drain _) hf
  simp only [Station.Pending, hstation, work_apply, List.not_mem_nil, or_false] at hpending
  exact vacated_eq_true_iff.mpr ⟨f, hf, hpending⟩

/-- Once the permits are closed and nothing is left to be done, a read that was not served has
settled as cancelled. It has vacated, or does so when its task is polled, and the task is ready. -/
theorem Reachable.cancelled_of_unserved (h : Reachable (Permits.ofBound bound) s) (hw : s.work = [])
    (hp : s.closing? = some true) (hx : s.At x Entry.Unserved) :
    s.At x (·.request.status = .cancelled) ∧
      (s.vacated x = true ∨ x ∈ s.ready.tasks ∧ ((Move.poll x).apply s).vacated x = true) := by
  have hvalid := h.valid
  obtain ⟨e, he, hu⟩ := hx
  have hc : e.Coherent := hvalid.sound.isCoherent he
  obtain ⟨p, hper, hclosed⟩ := Option.map_eq_some_iff.mp hp
  constructor
  · have hstage : e.stage ≠ .refused := fun hr => by
      have hend := (hc.refused hr).1
      obtain ht | ht | ht | ht := hu.task <;> cases hend.symm.trans ht
    have hterminal := h.sealed.settled hvalid.sound (h.serving.closed hper hclosed) hw
      (⟨e, he, rfl, hstage⟩ : s.Accepted e.kind x)
    have hset := (Request.isTerminal_status _).mp (hterminal.of_entry he)
    rw [Request.isSettled, ← Cell.isSome_value?, Option.isSome_iff_exists] at hset
    obtain ⟨o, ho⟩ := hset
    obtain rfl := hu.cancelled hc ho
    exact ⟨e, he, Request.status_of_value? ho⟩
  · have ready (hr : x ∈ s.ready.tasks) : s.vacated x = true ∨
        x ∈ s.ready.tasks ∧ ((Move.poll x).apply s).vacated x = true :=
      .inr ⟨hr, h.vacated_poll hw hp he hu hr⟩
    have hpending := h.awake.pending hw he
    unfold Station.Pending at hpending
    cases ht : e.station.task with
    | unspawned | working =>
        have ht : e.task = _ := ht
        simpa [ht] using hu.task
    | fresh | handed =>
        simp only [ht] at hpending
        exact ready hpending
    | queueing =>
        simp only [ht] at hpending
        obtain ⟨q, hq, hi⟩ | ⟨_, hr⟩ := hpending
        · obtain rfl := Option.some.inj (hper.symm.trans hq)
          simp [h.metered.closed hper hclosed] at hi
        · exact ready hr
    | ended =>
        simp only [ht, hw, List.not_mem_nil, or_false] at hpending
        exact .inl (vacated_eq_true_iff.mpr ⟨e, he, hpending⟩)

/-- With a bound of `n` on concurrent reads, the free permits and those that the tasks of reads hold
make up `n`, so that `n` reads perform at most; while a task waits for a permit none is free; and
every request takes one permit at most, gives back what it took when its task ends, and takes none
if it is a write. Once the permits are closed, no read that waits for one ever begins: it settles
as cancelled, and vacates as soon as its task is polled. -/
theorem permits_conserved (h : History (Permits.ofBound (some n)) past s) :
    ∃ p, s.permits = some p ∧
      (p.available + s.holders = n ∧ s.readers ≤ n) ∧
      (p.closed = false → ∀ {i : Nat}, s.At i (·.task = .queueing) → p.available = 0) ∧
      (∀ x, takes past x ≤ 1 ∧ takes past x = gives past x + (if s.holds x then 1 else 0) ∧
        (s.At x (·.kind = .write) → takes past x = 0)) ∧
      (∀ later u a before x, past = later ++ (u, a) :: before → u.holds x = true →
        (a.apply u).holds x = false →
        (a.apply u).At x (·.task = .ended) ∧ PassesOn u (a.apply u) x) ∧
      (p.closed = true → ∀ {x : Nat}, (s.At x fun e => e.kind = .read ∧
          (e.task = .fresh ∨ e.task = .queueing ∨ e.task = .handed)) →
        ∀ {t : Machine D}, Run s t →
          t.At x (·.callback.hasBegun = false) ∧ (∀ b, .start x b ∉ t.events) ∧
          (t.work = [] → t.At x (·.request.status = .cancelled) ∧
            (t.vacated x = true ∨
              x ∈ t.ready.tasks ∧ ((Move.poll x).apply t).vacated x = true))) := by
  have hreach := h.reachable
  obtain ⟨p, hp⟩ := hreach.exists_permits
  refine ⟨p, hp, ⟨hreach.conserved hp, hreach.readers_le⟩, fun hopen i hi =>
    (hreach.scarce hp hopen hi).2, fun x => ?_, ?_, ?_⟩
  · obtain ⟨hle, hwrite⟩ := h.takes_le x
    exact ⟨hle, h.takes_eq x, hwrite⟩
  · rintro later u a before x rfl hu ht
    obtain ⟨hbefore, ha, _⟩ := h.split
    exact ha.passesOn hbefore.reachable hu ht
  · intro hclosed x hx t hrun
    obtain ⟨e, he, hk, ht⟩ := hx
    have hunserved := Coherent.unserved hreach.valid.sound.isCoherent he hk ht
    have hclosing : s.closing? = some true := by simp [closing?, hp, hclosed]
    obtain ⟨hshut, hx⟩ := Run.unserved hrun hreach.valid hclosing ⟨e, he, hunserved⟩
    have ht : Reachable (Permits.ofBound (some n)) t := .trans hreach hrun
    have hbegun : t.At x (·.callback.hasBegun = false) := hx.imp fun _ hu => hu.hasBegun
    exact ⟨hbegun, ht.valid.not_started hbegun, fun hw => ht.cancelled_of_unserved hw hshut hx⟩

/-- A read that performs with the only permit, and a read that waits for it, when admission and the
permits have been closed. -/
def barred : Machine Unit :=
  (start (Permits.ofBound (some 1))).play 12 [.submit .read { mode := .hold }, .poll 0, .advance 0,
    .submit .read {}, .poll 1, .shutdown]

theorem permits_conserved_barred : ∃ past, History (Permits.ofBound (some 1)) past barred ∧
    barred.closing? = some true ∧ barred.holders = 1 ∧ takes past 0 = 1 ∧ gives past 0 = 0 ∧
    (barred.At 1 fun e => e.kind = .read ∧ e.task = .queueing ∧ e.request.status = .cancelled) ∧
    ((Move.poll 1).apply barred).vacated 1 = true := by
  have hreach : Reachable (Permits.ofBound (some 1)) barred := run_play 12 _ _
  obtain ⟨past, h⟩ := History.exists_of_reachable hreach
  have hclosing : barred.closing? = some true := rfl
  have hwaits : barred.At 1 fun e => e.kind = .read ∧
      (e.task = .fresh ∨ e.task = .queueing ∨ e.task = .handed) := ⟨_, rfl, rfl, .inr (.inl rfl)⟩
  obtain ⟨p, hp, _, _, hcount, _, hclosed⟩ := permits_conserved h
  have hshut : p.closed = true := by simpa [closing?, hp] using hclosing
  obtain ⟨_, _, hrest⟩ := hclosed hshut hwaits .refl
  obtain ⟨hcancelled, hvacates⟩ := hrest rfl
  obtain ⟨hle, hsum, _⟩ := hcount 0
  have hheld : barred.holds 0 = true := rfl
  simp only [hheld, ↓reduceIte] at hsum
  refine ⟨past, h, hclosing, rfl, by omega, by omega,
    ⟨_, rfl, rfl, rfl, hcancelled.of_entry rfl⟩, ?_⟩
  exact (hvacates.resolve_left (by decide)).2

end Machine

end RequestScheduler
