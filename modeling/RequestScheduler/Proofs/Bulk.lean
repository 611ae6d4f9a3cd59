import RequestScheduler.Proofs.Blocked

/-!
# Bulk cancellation

A bulk call collects what is outstanding, the writes before the reads, and cancels it in that
order. A slot that is queued leaves the queue without having been dispatched, unless it is exposed:
a read that waits for a write that is itself queued. Cancelling that write vacates it, and the read
is dispatched before its own turn comes (`cancelled_or_exposed`).

A slot that is not exposed is blocked when the call begins, and on its way out of the queue. For an
exposed one the call is followed further: by the time its turn comes, the write before it has
vacated (`Sweep`).
-/

namespace RequestScheduler

variable {D : Type}

/-- The work of cancelling requests one after the other. -/
inductive Cancellations (ids : List Nat) : List (Work D) → Prop
  | each (total count : Nat) : Cancellations ids [.cancelEach ids total count]
  | slots : Cancellations ids (ids.map .cancelSlot)

theorem Cancellations.mem {ids : List Nat} {l : List (Work D)} {w : Work D}
    (h : Cancellations ids l) (hw : w ∈ l) :
    w.isDuty = false ∧ w.vacates? = none ∧ ∀ x, w.takesOut x → x ∈ ids := by
  cases h with
  | each total count =>
      obtain rfl := List.mem_singleton.mp hw
      exact ⟨rfl, rfl, fun _ hx => hx⟩
  | slots =>
      obtain ⟨i, hi, rfl⟩ := List.mem_map.mp hw
      refine ⟨rfl, rfl, fun x hx => ?_⟩
      obtain rfl : i = x := hx
      exact hi

theorem Cancellations.exists_takesOut {ids : List Nat} {l : List (Work D)} {x : Nat}
    (h : Cancellations ids l) (hx : x ∈ ids) : ∃ w ∈ l, w.takesOut x := by
  cases h with
  | each total count => exact ⟨_, List.mem_singleton.mpr rfl, hx⟩
  | slots => exact ⟨_, List.mem_map.mpr ⟨x, hx, rfl⟩, rfl⟩

/-- The first item cancels the first request, if there is one. -/
theorem Cancellations.head {ids : List Nat} {l : List (Work D)} {w : Work D}
    (h : Cancellations ids (w :: l)) :
    (∃ total count, ids = [] ∧ w = .cancelEach [] total count ∧ l = []) ∨
    ∃ i m, ids = i :: m ∧
      ((∃ total count, w = .cancelEach (i :: m) total count ∧ l = []) ∨
        w = .cancelSlot i ∧ l = m.map .cancelSlot) := by
  generalize hl : w :: l = todo at h
  cases h with
  | each total count =>
      obtain ⟨rfl, rfl⟩ := List.cons.inj hl
      cases ids with
      | nil => exact .inl ⟨total, count, rfl, rfl, rfl⟩
      | cons i m => exact .inr ⟨i, m, rfl, .inl ⟨total, count, rfl, rfl⟩⟩
  | slots =>
      cases ids with
      | nil => cases hl
      | cons i m => exact .inr ⟨i, m, rfl, .inr (List.cons.inj hl)⟩

namespace Machine

variable {s t u : Machine D} {permits : Option Permits} {d i x : Nat} {e f : Entry D} {w : Work D}
  {front rest items l : List (Work D)}

/-- Client code may call an operation: nothing is going on, or an action of the client is being
performed, which was taken off the list of work. -/
def InControl (permits : Option Permits) (s : Machine D) : Prop :=
  (Reachable permits s ∧ s.work = []) ∨
    ∃ a, Reachable permits { s with work := .perform a :: s.work }

/-- A call that cancels whatever is outstanding: the machine when it has collected that, and the
work that is left when it is over. -/
inductive BulkCall (s : Machine D) : Machine D → List (Work D) → Prop
  | cancelAll {after : List (Work D)} (h : ∀ w ∈ after, w.isIdle) :
      BulkCall s (s.cancelAll after) (after ++ s.work)
  | shutdown : BulkCall s s.closeDown s.work

/-- What a bulk call cancels: the writes, then the reads. -/
def collected (s : Machine D) : List Nat :=
  (s.admission.prune s.vacated).writes ++ (s.admission.prune s.vacated).reads

theorem InControl.valid (h : s.InControl permits) : s.Valid := by
  obtain ⟨h, _⟩ | ⟨a, h⟩ := h
  · exact h.valid
  · have hidle : ∀ w ∈ [Work.perform a], w.isIdle := by simp [Work.isIdle]
    have hrule : Rule { s with work := .perform a :: s.work } s :=
      .touch (.same rfl rfl rfl rfl rfl) rfl (List.nil_append _).symm hidle (List.forall_mem_nil _)
    exact hrule.valid h.valid

theorem BulkCall.rules (h : s.BulkCall t rest) : Rules s t := by
  cases h with
  | cancelAll ha => exact rules_cancelAll (List.nil_append _).symm (List.forall_mem_nil _) ha
  | shutdown => exact rules_closeDown s

/-- In a machine at rest a bulk call is the operation of a client. -/
theorem drainTo_cancelAll (h : s.work = []) :
    (s.cancelAll []).drainTo ([] ++ s.work).length = s.cancelAllNow := by
  rw [h]
  exact drainTo_zero _

/-- What a bulk call has done when it has collected. -/
theorem BulkCall.collects (h : s.BulkCall t rest) : t.entries = s.entries ∧
    (∃ after, (∀ w ∈ after, w.isIdle) ∧ rest = after ++ s.work) ∧
    ∃ front, Cancellations s.collected front ∧ t.work = front ++ rest := by
  cases h with
  | cancelAll ha => exact ⟨rfl, ⟨_, ha, rfl⟩, _, .each _ _, rfl⟩
  | shutdown =>
      exact ⟨entries_closeDown s, ⟨[], List.forall_mem_nil _, rfl⟩, _, .slots, work_closeDown s⟩

/-- As long as admission is open, whoever was admitted and has not vacated is collected. -/
theorem Valid.mem_collected (h : s.Valid) (hc : s.admission.closed = false)
    (hx : s.At x (·.stage ≠ .refused)) (hv : s.vacated x = false) : x ∈ s.collected := by
  obtain ⟨e, he, hr⟩ := hx
  have keep : (!s.vacated x) = true := by simp [hv]
  cases hk : e.kind with
  | read =>
      have := h.recorded.mem_reads hc ⟨e, he, hk, hr⟩ hv
      exact List.mem_append_right _ (List.mem_filter.mpr ⟨this, keep⟩)
  | write =>
      have := h.recorded.mem_writes hc ⟨e, he, hk, hr⟩ hv
      exact List.mem_append_left _ (List.mem_filter.mpr ⟨this, keep⟩)

/-- So whoever is queued is collected. -/
theorem Valid.collected_of_queued (h : s.Valid) (hc : s.admission.closed = false)
    (hx : s.At x (·.stage = .queued)) : x ∈ s.collected := by
  obtain ⟨e, he, hq⟩ := hx
  refine h.mem_collected hc ⟨e, he, by simp [hq]⟩ ?_
  rw [vacated, he]
  exact ((h.sound.entry he).coherent.queued hq).2.1

/-- A call that cancels `ids`, in the middle, while all continuations only look: what its last
cancellation set off is in front of the others. -/
structure Orderly (s : Machine D) (ids : List Nat) (front : List (Work D)) : Prop where
  quiet : s.Quiet
  front : ∃ (set : List (Work D)) (l : List Nat) (todo : List (Work D)), front = set ++ todo ∧
    Cancellations l todo ∧ l <:+ ids ∧ ∀ v ∈ set, v.isQuiet = true

/-- What comes next was set off, or is the next cancellation. -/
theorem Orderly.next {v : Work D} {ids : List Nat} (hs : s.Orderly ids (v :: l)) :
    v.isQuiet = true ∨ ∃ m, Cancellations m (v :: l) ∧ m <:+ ids := by
  obtain ⟨_ | ⟨a, set⟩, m, todo, hfront, htodo, hm, hset⟩ := hs.front
  · exact .inr ⟨m, hfront ▸ htodo, hm⟩
  · obtain ⟨rfl, rfl⟩ := List.cons.inj hfront
    exact .inl (hset v List.mem_cons_self)

theorem Orderly.adds {v : Work D} {ids : List Nat} (hs : s.Orderly ids (v :: l)) :
    v.adds = false := by
  obtain hq | ⟨m, hm, _⟩ := hs.next
  · exact Work.adds_of_isQuiet hq
  · obtain ⟨_, _, _, rfl, _⟩ | ⟨_, _, _, ⟨_, _, rfl, _⟩ | ⟨rfl, _⟩⟩ := hm.head
    all_goals rfl

/-- The call goes on. -/
theorem Orderly.carry {v : Work D} {ids : List Nat} (hs : s.Orderly ids (v :: l))
    (h : s.Carries v l rest items t) : t.Orderly ids (items ++ l) := by
  refine ⟨fun {i f} hf k hk => ?_, ?_⟩
  · have hi := (List.getElem?_eq_some_iff.mp hf).1
    rw [h.follows.length hs.adds] at hi
    obtain ⟨g, hg, heg⟩ := h.follows.entry (List.getElem?_eq_getElem hi)
    obtain rfl := Option.some.inj (hf.symm.trans hg)
    exact hs.quiet (List.getElem?_eq_getElem hi) k (heg.continuations hs.adds hk)
  obtain ⟨_ | ⟨a, set⟩, m, todo, hfront, htodo, hm, hset⟩ := hs.front
  · obtain ⟨_, _, rfl, rfl, rfl⟩ | ⟨i, n, rfl, ⟨_, _, rfl, rfl⟩ | ⟨rfl, rfl⟩⟩ :=
      (hfront ▸ htodo : Cancellations m (v :: l)).head
    · obtain rfl := h.items_eq (m := []) rfl
      exact ⟨[], [], [], rfl, .slots, List.nil_suffix, List.forall_mem_nil _⟩
    · obtain rfl := h.items_eq (work_cancelThen _ _ _)
      exact ⟨[_, _], n, [_], rfl, .each _ _, (List.suffix_cons i n).trans hm,
        by simp [Work.isQuiet]⟩
    · obtain rfl := h.items_eq (work_cancelThen _ _ _)
      exact ⟨[_, _], n, _, rfl, .slots, (List.suffix_cons i n).trans hm, by simp [Work.isQuiet]⟩
  · -- What the last cancellation set off is quiet, and leaves quiet work.
    obtain ⟨rfl, rfl⟩ := List.cons.inj hfront
    refine ⟨items ++ set, m, todo, by simp, htodo, hm, fun a ha => ?_⟩
    obtain ha | ha := List.mem_append.mp ha
    · exact h.leaves.quiet (hset v List.mem_cons_self) hs.quiet h.valid.sound.isCoherent a ha
    · exact hset a (List.mem_cons_of_mem _ ha)

/-- In such a call, the read `x` has not been cancelled unless it was dispatched before. -/
structure Sweep (s : Machine D) (x w : Nat) (ids : List Nat) (front : List (Work D)) : Prop where
  orderly : s.Orderly ids front
  read : s.Accepted .read x
  last : s.LastWriteBefore x w
  free : s.At x fun e => e.request.tripped = false ∨ e.task ≠ .unspawned
  /-- The write comes first. -/
  order : ∀ {l : List Nat}, x :: l <:+ ids → w ∉ x :: l

/-- When the turn of `x` comes, it was dispatched or cancelled before. -/
theorem Sweep.spawned {w : Nat} {ids m : List Nat} (hs : s.Sweep x w ids front) (h : s.Valid)
    (hw : s.work = front ++ rest) (hr : rest.filter Work.isDuty = [])
    (ho : s.Outgoing w front) (hf : Cancellations m front) (hm : w ∉ m) :
    s.At x (·.task ≠ .unspawned) := by
  have hd : s.duties = [] := by
    rw [duties_of_work hw, hr, List.append_nil, List.filter_eq_nil_iff]
    exact fun v hv => by simp [(hf.mem hv).1]
  have hv : s.vacated w = true := by
    cases ho with
    | queued _ hv hx => exact absurd ((hf.mem hv).2.2 w hx) hm
    | leaving _ hv => cases (hf.mem hv).2.1
    | gone hv => exact vacated_eq_true_iff.mpr (hv.imp fun _ hv => hv.1.2)
  obtain ⟨e, he, ht | hk⟩ := hs.free
  · exact h.spawned_of_vacated hd hs.read hs.last hv ⟨e, he, ht⟩
  · exact ⟨e, he, hk⟩

/-- The call goes on, and comes to `x` when it has been dispatched. -/
theorem Sweep.carry {w : Nat} {ids : List Nat} {v : Work D} (hs : s.Sweep x w ids (v :: l))
    (h : s.Carries v l rest items t) (ho : s.Outgoing w (v :: l))
    (hr : rest.filter Work.isDuty = []) : t.Sweep x w ids (items ++ l) := by
  have hx := hs.read.lt
  have htrips : v.trips? = some x → s.At x (·.task ≠ .unspawned) := by
    intro hv
    obtain hq | ⟨m, hm, hsuffix⟩ := hs.orderly.next
    · simp [Work.trips?_of_isQuiet hq] at hv
    have turn (hx : m = x :: m.tail) : s.At x (·.task ≠ .unspawned) :=
      hs.spawned h.valid h.work hr ho hm (hx ▸ hs.order (hx ▸ hsuffix))
    obtain ⟨_, _, _, rfl, _⟩ | ⟨i, n, rfl, ⟨_, _, rfl, _⟩ | ⟨rfl, _⟩⟩ := hm.head
    · cases hv
    · obtain rfl := Option.some.inj hv
      exact turn rfl
    · obtain rfl := Option.some.inj hv
      exact turn rfl
  refine ⟨hs.orderly.carry h, hs.read.grow h.grows,
    (lastWriteBefore_iff h.grows (Nat.le_of_lt hx)).mpr hs.last, ?_, hs.order⟩
  obtain ⟨e, he, hfree⟩ := hs.free
  obtain ⟨f, hf, hef⟩ := h.follows.entry he
  obtain ⟨g, hg, heg⟩ := h.grows.entry he
  obtain rfl := Option.some.inj (hf.symm.trans hg)
  refine ⟨f, hf, ?_⟩
  obtain ht | ht := hef.tripped
  · exact hfree.imp ht.trans heg.spawned
  · exact .inr (heg.spawned ((htrips ht).of_entry he))

/-- The writes are collected before the reads. -/
theorem Valid.collected_order {w : Nat} {l : List Nat} (h : s.Valid) (hx : s.Accepted .read x)
    (hw : s.Accepted .write w) (hl : x :: l <:+ s.collected) : w ∉ x :: l := by
  intro hm
  have hwrites {i : Nat} (hi : i ∈ (s.admission.prune s.vacated).writes) : s.Accepted .write i :=
    h.recorded.write (List.mem_filter.mp hi).1
  have hreads {i : Nat} (hi : i ∈ (s.admission.prune s.vacated).reads) : s.Accepted .read i :=
    h.recorded.read (List.mem_filter.mp hi).1
  obtain ⟨a, b, hab, ha, hb⟩ := List.sublist_append_iff.mp hl.sublist
  cases a with
  | nil =>
      rw [List.nil_append] at hab
      cases (hreads (hb.subset (hab ▸ hm))).kind_unique hw
  | cons i a =>
      obtain ⟨rfl, _⟩ := List.cons.inj hab
      cases (hwrites (ha.subset List.mem_cons_self)).kind_unique hx

/-- Once admission is closed, a bulk call collects nothing, and nobody leaves the queue in it. -/
theorem Valid.drainTo_closed (h : s.Valid) (hclosed : s.admission.closed = true)
    (hf : Cancellations s.collected front) (hw : t.work = front ++ rest)
    (hx : t.At x (·.stage = .queued)) : (t.drainTo rest.length).At x (·.stage = .queued) := by
  have hnone : s.collected = [] := by
    obtain ⟨hr, hw, _⟩ := h.recorded.closed hclosed
    simp [collected, Admission.prune, hr, hw]
  rw [hnone] at hf
  have hend := drainTo_induction (p := fun front t => Cancellations [] front ∧
    t.At x (·.stage = .queued)) hw ⟨hf, hx⟩ (by
      rintro t u w f items ht rfl hl ⟨hf, hx⟩
      obtain ⟨_, _, _, rfl, rfl⟩ | ⟨_, _, hi, _⟩ := hf.head
      · obtain rfl : items = [] :=
          List.append_cancel_right (hl.work.symm.trans (List.nil_append _).symm)
        exact ⟨.slots, hx⟩
      · cases hi)
  exact hend.2.2

/-- Exposure is settled by admission and by who is queued, so it is the same when the call has
collected. -/
theorem BulkCall.exposed_iff (hc : s.BulkCall t rest) (hs : s.Valid) (hx : x < s.entries.length) :
    t.Exposed x ↔ s.Exposed x := by
  have hg : s.Grows t := hc.rules.grows hs
  obtain ⟨he, _⟩ := hc.collects
  unfold Exposed At
  simp only [he, lastWriteBefore_iff hg (Nat.le_of_lt hx)]

/-- Whoever is queued and not exposed is on its way out of the queue. -/
theorem BulkCall.outgoing (hc : s.BulkCall t rest) (hs : s.Valid)
    (hopen : s.admission.closed = false) (hx : s.At x (·.stage = .queued)) (hn : ¬s.Exposed x)
    (hf : Cancellations s.collected front) (hw : t.work = front ++ rest) :
    t.Outgoing x front ∧ t.Blocked x front rest := by
  obtain ⟨he, _⟩ := hc.collects
  have hlt : x < s.entries.length := by
    obtain ⟨e, hxe, _⟩ := hx
    exact (List.getElem?_eq_some_iff.mp hxe).1
  have hxt : t.At x (·.stage = .queued) := (At.congr he).mpr hx
  obtain ⟨v, hv, hvx⟩ := hf.exists_takesOut (hs.collected_of_queued hopen hx)
  refine ⟨.queued hxt hv hvx, ?_⟩
  apply (hc.rules.valid hs).blocked hxt (mt (hc.exposed_iff hs hlt).mp hn) hw
  intro w hm
  exact ⟨(hf.mem hm).1, (hf.mem hm).2.1⟩

/-- While admission is open, a queued slot that is not exposed vacates in the call. -/
theorem BulkCall.vacates (hc : s.BulkCall t rest) (hs : s.Valid)
    (hopen : s.admission.closed = false) (hx : s.At x (·.stage = .queued)) (hn : ¬s.Exposed x) :
    (t.drainTo rest.length).Valid ∧ (t.drainTo rest.length).At x fun e =>
      e.stage = .vacated ∧ e.isVacated = true ∧ e.task = .unspawned ∧ e.callback = .dropped := by
  obtain ⟨_, _, front, hfront, hw⟩ := hc.collects
  obtain ⟨ho, hb⟩ := hc.outgoing hs hopen hx hn hfront hw
  obtain ⟨hv, ho⟩ := (hc.rules.valid hs).drainTo_outgoing hw ho hb
  exact ⟨hv, ho.of_nil hv⟩

/-- While admission is open, an exposed read is dispatched in the call, when nothing but the call
cancels anything meanwhile. -/
theorem BulkCall.dispatches (hc : s.BulkCall t rest) (hs : s.Valid)
    (hopen : s.admission.closed = false) (hx : s.At x (·.stage = .queued)) (hexp : s.Exposed x)
    (hd : s.duties = []) (hq : s.Quiet) : (t.drainTo rest.length).At x (·.task ≠ .unspawned) := by
  have hg : s.Grows t := hc.rules.grows hs
  obtain ⟨he, ⟨after, hafter, hrest⟩, front, hfront, hw⟩ := hc.collects
  have same {i : Nat} {p : Entry D → Prop} : s.At i p → t.At i p := (At.congr he).mpr
  obtain ⟨hread, w, hlast, hqw⟩ := hexp
  obtain ⟨e, hxe, hqx⟩ := hx
  obtain ⟨hkind, hfree⟩ := hread.of_entry hxe
  have hread : s.Accepted .read x := ⟨e, hxe, hkind, by simp [hqx]⟩
  have hnw : ¬s.Exposed w := by
    intro hw
    obtain ⟨a, ha, hk, _⟩ := hlast.write
    cases hk.symm.trans (hw.1.of_entry ha).1
  obtain ⟨ho, hb⟩ := hc.outgoing hs hopen hqw hnw hfront hw
  have hidle : rest.filter Work.isDuty = [] := by
    rw [hrest, List.filter_append, filter_isDuty_of_isIdle hafter, List.nil_append]
    exact hd
  have hsweep : t.Sweep x w s.collected front :=
    { orderly := ⟨fun hi => hq (he ▸ hi), [], _, front, rfl, hfront, List.suffix_refl _,
        List.forall_mem_nil _⟩
      read := same hread
      last := (lastWriteBefore_iff hg (Nat.le_of_lt hread.lt)).mpr hlast
      free := same ⟨e, hxe, .inl hfree⟩
      order := hs.collected_order hread hlast.write }
  obtain ⟨hrest, hv, ho, _, hsweep⟩ := drainTo_induction
    (p := fun front t => t.Valid ∧ t.Outgoing w front ∧ t.Blocked w front rest ∧
      t.Sweep x w s.collected front) hw ⟨hc.rules.valid hs, ho, hb, hsweep⟩ (by
        rintro t u v f items ht hu hl ⟨hv, ho, hb, hs⟩
        have hc : t.Carries v f rest items u := ⟨hv, ht, hu, hl⟩
        exact ⟨hc.run.valid hv, ho.carry hc (hb.tripped_of_dispatch hv ht), hb.carry hc,
          hs.carry hc ho hidle⟩)
  exact hsweep.spawned hv hrest hidle ho .slots List.not_mem_nil

/-- What a bulk call does to a slot that is queued. While admission is open, the call takes the slot
out of the queue without having dispatched it, and the callback never begins, unless the slot is
exposed. An exposed read is dispatched by the call, unless something that a settlement sets off
cancels it before its turn. A call inside a shutdown that is going on collects nothing, so that it
leaves the slot to the shutdown. -/
theorem cancelled_or_exposed (h : s.InControl permits) (hc : s.BulkCall t rest)
    (hx : s.At x (·.stage = .queued)) :
    (t.drainTo rest.length).work = rest ∧
    (s.admission.closed = false → ¬s.Exposed x →
      ((t.drainTo rest.length).At x fun e => e.stage = .vacated ∧ e.isVacated = true ∧
        e.task = .unspawned ∧ e.callback = .dropped) ∧
      ∀ {u : Machine D} {b : Bool}, Run (t.drainTo rest.length) u → .start x b ∉ u.events) ∧
    (s.admission.closed = false → s.Exposed x → s.duties = [] → s.Quiet →
      (t.drainTo rest.length).At x (·.task ≠ .unspawned)) ∧
    (s.admission.closed = true → s.work ≠ [] ∧
      (t.drainTo rest.length).At x (·.stage = .queued)) := by
  have hs := h.valid
  obtain ⟨he, _, front, hfront, hw⟩ := hc.collects
  refine ⟨?_, ?_, ?_, ?_⟩
  · exact (drainTo_induction (p := fun _ _ => True) hw trivial fun _ _ _ _ => trivial).1
  · intro hopen hn
    obtain ⟨hv, hend⟩ := hc.vacates hs hopen hx hn
    exact ⟨hend, fun hr => hr.not_start hv (hend.imp fun _ he => he.2.2.2)⟩
  · intro hopen hexp hd hq
    exact hc.dispatches hs hopen hx hexp hd hq
  · intro hclosed
    have hxt : t.At x (·.stage = .queued) := (At.congr he).mpr hx
    refine ⟨?_, hs.drainTo_closed hclosed hfront hw hxt⟩
    intro hn
    simpa [hn] using hs.closing hclosed hx

/-- A read that does not return, a write that waits for it, and a read that waits for the write. -/
def crowded : Machine Unit :=
  (start none).play 8 [.submit .read { mode := .hold }, .poll 0, .advance 0, .submit .write {},
    .submit .read {}]

theorem cancelled_or_exposed_crowded : crowded.InControl none ∧
    crowded.At 1 (·.stage = .queued) ∧ crowded.At 2 (·.stage = .queued) ∧
    (crowded.cancelAllNow.At 1 fun e => e.stage = .vacated ∧ e.isVacated = true ∧
      e.task = .unspawned ∧ e.callback = .dropped) ∧
    crowded.cancelAllNow.At 2 (·.task ≠ .unspawned) := by
  have hrest : crowded.work = [] := rfl
  have hin : crowded.InControl none := .inl ⟨run_play 8 _ (start none), hrest⟩
  have hcall : crowded.BulkCall (crowded.cancelAll []) ([] ++ crowded.work) :=
    .cancelAll (List.forall_mem_nil _)
  have hnow := drainTo_cancelAll hrest
  have hwrite : crowded.At 1 (·.stage = .queued) := ⟨_, rfl, rfl⟩
  have hread : crowded.At 2 (·.stage = .queued) := ⟨_, rfl, rfl⟩
  have hsafe : ¬crowded.Exposed 1 := by
    rintro ⟨⟨e, he, hk, _⟩, _⟩
    have : some Kind.write = some e.kind := congrArg (Option.map Entry.kind) he
    simp [hk] at this
  have hexposed : crowded.Exposed 2 := by
    have hlast : crowded.LastWriteBefore 2 1 :=
      ⟨⟨_, rfl, rfl, by decide⟩, by decide, fun _ _ => by omega⟩
    exact ⟨⟨_, rfl, rfl, rfl⟩, 1, hlast, _, rfl, rfl⟩
  have hquiet : crowded.Quiet := by
    intro i e he k hk
    have hall : (crowded.entries.all fun e => e.request.cell.continuations.all
        Continuation.isQuiet) = true := rfl
    exact List.all_eq_true.mp (List.all_eq_true.mp hall _ (List.mem_of_getElem? he)) k hk
  have hfirst := (cancelled_or_exposed hin hcall hwrite).2.1 rfl hsafe
  have hsecond := (cancelled_or_exposed hin hcall hread).2.2.1 rfl hexposed rfl hquiet
  exact ⟨hin, hwrite, hread, hnow ▸ hfirst.1, hnow ▸ hsecond⟩

/-- A queued read is dispatched by a bulk cancellation, and its callback begins. -/
theorem cancelAllNow_starts_queued : Reachable none crowded ∧ crowded.work = [] ∧
    crowded.live = true ∧ crowded.At 2 (·.stage = .queued) ∧
    crowded.cancelAllNow.At 2 (·.stage = .dispatched) ∧
    ∃ t, Run crowded.cancelAllNow t ∧ .start 2 true ∈ t.events := by
  have hnow : crowded.cancelAllNow = (crowded.cancelAll []).steps 16 := drain_eq_steps 16 _ rfl
  refine ⟨run_play 8 _ _, rfl, rfl, ⟨_, rfl, rfl⟩, ?_, ?_⟩
  · rw [hnow]
    exact ⟨_, rfl, rfl⟩
  · rw [hnow]
    refine ⟨_, run_play 8 [.poll 2, .advance 2] _, ?_⟩
    exact List.mem_cons_of_mem _ List.mem_cons_self

end Machine

end RequestScheduler
