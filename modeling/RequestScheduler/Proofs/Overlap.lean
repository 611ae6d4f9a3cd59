import RequestScheduler.Proofs.Launch

/-!
# Writes that overlap

The admission of a write is one step, and the cancellations that it decides on are others: they are
carried out after the record was left, and submissions of other threads, or submissions nested in
the continuations that a cancellation runs, may come between. A write cancels the write before it
before its own gate is made, so that one is out of the way when its slot is handed to the runtime.
For a write from further back it relies on a write between the two to have cancelled that one, and
the submission of that write may still be going on (`Crew.older_writes_clear`,
`Machine.dispatched_beside_write`).
-/

namespace RequestScheduler

variable {D : Type}

namespace Machine

variable {s t : Machine D} {items : List (Work D)} {v x : Nat}

theorem Preserves.retains (h : s.Preserves t) : s.Retains t where
  entry he := by
    obtain ⟨f, hf, hef⟩ := h.entry he
    exact ⟨f, hf, hef.kind, hef.refused, hef.isVacated⟩

theorem Retains.length_le (h : s.Retains t) : s.entries.length ≤ t.entries.length := by
  apply Nat.le_of_not_lt
  intro hlt
  obtain ⟨f, hf, _⟩ := h.entry (List.getElem?_eq_getElem hlt)
  exact Nat.lt_irrefl _ (List.getElem?_eq_some_iff.mp hf).1

/-- The record knows what it has to know, whichever thread goes on. -/
theorem Admits.recorded (h : Admits s items t) (hg : s.Retains t) (hr : s.Recorded) :
    t.Recorded := by
  have pruned : Recorded { s with admission := s.admission.prune s.vacated } :=
    hr.prune ⟨fun he => ⟨_, he, rfl, .rfl, id⟩⟩ rfl rfl rfl
  have hg' : Retains { s with admission := s.admission.prune s.vacated } t := ⟨hg.entry⟩
  cases h with
  | nobody hl ha => exact hr.retain hg hl ha
  | prune he ha =>
      have hv : t.vacated = s.vacated := by
        funext i
        rw [vacated, he, vacated]
      exact hr.prune hg (by rw [he]) hv ha
  | close _ ha =>
      exact recorded_of_closed (by rw [ha]; rfl) (by rw [ha]; rfl) (by rw [ha]; rfl)
        (by rw [ha]; rfl)
  | refuse _ hc ha =>
      obtain ⟨h₁, h₂, h₃⟩ := hr.closed hc
      exact recorded_of_closed (by rw [ha]; exact hc) (by rw [ha]; exact h₁) (by rw [ha]; exact h₂)
        (by rw [ha]; exact h₃)
  | read ht hc ha =>
      exact pruned.admitRead hg' ht rfl (by simp [Entry.queued]) hc (by rw [ha]; exact hc)
        (by rw [ha]; rfl) (by rw [ha]; rfl) (by rw [ha]; rfl)
  | write ht hc ha =>
      exact pruned.admitWrite hg' ht rfl (by simp [Entry.queued]) hc (by rw [ha]; exact hc)
        (by rw [ha]; rfl) (by rw [ha]; rfl) (by rw [ha]; rfl)

/-- A write that comes in is one that the record admitted. -/
theorem Admits.admitted_write (h : Admits s items t)
    (hx : t.Accepted .write x) (hn : s.entries.length ≤ x) :
    x = s.entries.length ∧ s.admission.closed = false ∧
      ∀ i, (s.admission.prune s.vacated).currentWrite = some i → .supersede i x ∈ items := by
  have hlt := hx.lt
  have hnew {f : Entry D} (ht : t.entries = s.entries ++ [f]) : x = s.entries.length ∧
      f.kind = .write ∧ f.stage ≠ .refused := by
    have hxs : x = s.entries.length := by simp [ht] at hlt; omega
    exact ⟨hxs, hx.of_entry (by rw [ht, hxs, List.getElem?_concat_length])⟩
  cases h with
  | nobody hl => omega
  | prune he => rw [he] at hlt; omega
  | close he => rw [he] at hlt; omega
  | refuse ht => exact absurd rfl (hnew ht).2.2
  | read ht => cases (hnew ht).2.1
  | write ht hc =>
      obtain ⟨rfl, _⟩ := hnew ht
      refine ⟨rfl, hc, fun i hi => List.mem_append_left _ (List.mem_map.mpr ⟨i, ?_, rfl⟩)⟩
      exact List.mem_append_right _ (Option.mem_toList.mpr hi)

/-- A write supersedes reads and the write before it. -/
theorem Admits.victim (h : Admits s items t) (hr : s.Recorded) (hm : .supersede v x ∈ items) :
    x = s.entries.length ∧ t.Accepted .write x ∧
      (s.Accepted .read v ∨ s.LastWriteBefore x v) := by
  have absurd_of {l : List (Work D)} (hl : ∀ w ∈ l, w.supersedes = false)
      (hm : .supersede v x ∈ l) : False := by
    cases hl _ hm
  cases h with
  | nobody _ _ hi | prune _ _ hi | close _ _ hi => exact (absurd_of hi hm).elim
  | refuse _ _ _ hi => exact (absurd_of hi hm).elim
  | read _ _ _ hi => exact (absurd_of hi hm).elim
  | write ht hc ha hi =>
      simp only [List.mem_append, List.mem_map, List.mem_cons, reduceCtorEq, false_or] at hm
      obtain ⟨i, hi', heq⟩ | hm := hm
      · obtain ⟨rfl, rfl⟩ := Work.supersede.inj heq
        refine ⟨rfl, (accepted_append ht (by simp [Entry.queued])).mpr rfl, ?_⟩
        obtain hi' | hi' := List.mem_append.mp hi'
        · exact .inl (hr.read (List.mem_filter.mp hi').1)
        · exact .inr (hr.current (Option.filter_eq_some_iff.mp (Option.mem_toList.mp hi')).1)
      · exact (absurd_of hi hm).elim

/-- Whom a later write is to cancel is cancelled when its turn comes. -/
theorem tripped_supersede (hv : s.At v fun _ => True) (hx : s.At x fun _ => True) :
    (exec (.supersede v x) s).At v (·.request.tripped = true) := by
  obtain ⟨e, he, _⟩ := hv
  obtain ⟨f, hf, _⟩ := hx
  simp only [exec, supersede, he, hf, cancelThen, trip]
  exact .of_set he rfl rfl

end Machine

namespace Crew

open Machine

variable {c d : Crew D} {k x v w : Nat} {done items rest : List (Work D)} {permits : Option Permits}
  {n : Nat} {past ms : List (Machine.Move D)}

/-- How often work and gates are to launch the slot. -/
def launches (c : Crew D) (x : Nat) : Nat := launching x c.threads.flatten + c.machine.counting x

/-- A thread has done some work and has some more to do. -/
structure Turns (c d : Crew D) (k : Nat) (done items rest : List (Work D)) : Prop where
  before : c.threads[k]? = some (done ++ rest)
  after : d.threads = c.threads.set k (items ++ rest)
  admits : Admits c.machine items d.machine
  launching : ∀ x, launching x items + d.machine.counting x ≤
    launching x done + c.machine.counting x + c.machine.fresh d.machine x
  superseded : ∀ {v w : Nat}, .supersede v w ∈ done → (c.machine.At v fun _ => True) →
    (c.machine.At w fun _ => True) → d.machine.At v (·.request.tripped = true)

theorem admits_of_seen {l : List (Work D)} {t : Machine D} (h : Admits (c.seen l) items t) :
    Admits c.machine items t := by
  cases h with
  | nobody hl ha hi => exact .nobody hl ha hi
  | prune he ha hi => exact .prune he ha hi
  | close he ha hi => exact .close he ha hi
  | refuse ht hc ha hi => exact .refuse ht hc ha hi
  | read ht hc ha hi => exact .read ht hc ha hi
  | write ht hc ha hi => exact .write ht hc ha hi

/-- Every step of a manager's thread is of this kind. -/
theorem Step.turns (hs : c.Step Move.begin ms d) : ∃ k done items rest,
    Turns c d k done items rest := by
  cases hs with
  | @work k w rest hk =>
      obtain ⟨items, hw, hadmits, hlaunch⟩ := exec_proceeds (s := c.seen rest) w
      refine ⟨k, [w], items, rest, hk, congrArg _ hw, admits_of_seen hadmits, hlaunch,
        fun hm hv hx => ?_⟩
      obtain rfl := List.mem_singleton.mp hm
      exact tripped_supersede (s := c.seen rest) hv hx
  | @move k m hk =>
      obtain ⟨items, hw, hadmits, hlaunch⟩ := begin_proceeds (s := c.seen []) m
      exact ⟨k, [], items, [], hk, congrArg _ hw, admits_of_seen hadmits, hlaunch,
        fun hm => absurd hm List.not_mem_nil⟩

theorem launching_flatten (x : Nat) (threads : List (List (Work D))) :
    RequestScheduler.launching x threads.flatten =
      total (threads.map (RequestScheduler.launching x)) := by
  induction threads with
  | nil => rfl
  | cons l threads ih =>
      rw [List.flatten_cons, launching_append, ih, List.map_cons, total_cons]

namespace Turns

variable (h : Turns c d k done items rest)

include h

/-- Only an admission adds to what launches a slot. -/
theorem launches_le (x : Nat) : d.launches x ≤ c.launches x + c.machine.fresh d.machine x := by
  have hset := total_map_set (f := RequestScheduler.launching x) (b := items ++ rest) h.before
  have hstep := h.launching x
  simp only [launches, launching_flatten, h.after]
  simp only [launching_append] at hset
  omega

/-- What a thread has to do was to be done before, or is left by the step. -/
theorem mem_threads {l : List (Work D)} (hl : l ∈ d.threads) :
    l ∈ c.threads ∨ l = items ++ rest :=
  List.mem_or_eq_of_mem_set (h.after ▸ hl)

theorem rest_suffix : ∃ l ∈ c.threads, rest <:+ l :=
  ⟨_, List.mem_of_getElem? h.before, List.suffix_append done rest⟩

theorem todo_cases {w : Work D} (hw : d.Todo w) : c.Todo w ∨ w ∈ items :=
  hw.cases_of_set h.before h.after

/-- What was to be done is to be done still, or has just been done. -/
theorem todo {w : Work D} (hw : c.Todo w) : d.Todo w ∨ w ∈ done := hw.of_set h.before h.after

theorem todo_items {w : Work D} (hw : w ∈ items) : d.Todo w :=
  ⟨_, h.after ▸ List.mem_set (List.getElem?_eq_some_iff.mp h.before).1 _,
    List.mem_append_left _ hw⟩

end Turns

/-- Behind the cancellations for a write stands its gate. -/
def Looped (l : List (Work D)) : Prop :=
  ∀ {v x : Nat} {b : List (Work D)}, .supersede v x :: b <:+ l → ∃ ds, .chain x ds ∈ b

theorem Looped.suffix {l m : List (Work D)} (h : Looped l) (hm : m <:+ l) : Looped m :=
  fun hb => h (hb.trans hm)

theorem looped_of_supersedes {l : List (Work D)} (h : ∀ w ∈ l, w.supersedes = false) :
    Looped l := by
  intro v x b hb
  cases h _ (hb.subset List.mem_cons_self)

theorem Looped.append {l m : List (Work D)} (hl : Looped l) (hm : Looped m) : Looped (l ++ m) := by
  induction l with
  | nil => exact hm
  | cons w l ih =>
      intro v x b hb
      obtain hb | hb := List.suffix_cons_iff.mp hb
      · obtain ⟨rfl, rfl⟩ := List.cons.inj hb
        obtain ⟨ds, hds⟩ := hl (List.suffix_refl _)
        exact ⟨ds, List.mem_append_left _ hds⟩
      · exact ih (hl.suffix (List.suffix_cons _ _)) hb

theorem looped_loop {ids ds : List Nat} {after : List (Work D)}
    (h : ∀ w ∈ after, w.supersedes = false) :
    Looped (ids.map (Work.supersede · x) ++ .chain x ds :: after) := by
  induction ids with
  | nil => exact looped_of_supersedes (List.forall_mem_cons.mpr ⟨rfl, h⟩)
  | cons i ids ih =>
      intro v y b hb
      obtain hb | hb := List.suffix_cons_iff.mp hb
      · obtain ⟨hw, rfl⟩ := List.cons.inj hb
        obtain ⟨_, rfl⟩ := Work.supersede.inj hw
        exact ⟨ds, List.mem_append_right _ List.mem_cons_self⟩
      · exact ih hb

theorem looped_of_admits {s t : Machine D} (h : Admits s items t) : Looped items := by
  cases h with
  | nobody _ _ hi | prune _ _ hi | close _ _ hi => exact looped_of_supersedes hi
  | refuse _ _ _ hi => exact looped_of_supersedes hi
  | read _ _ _ hi => exact looped_of_supersedes hi
  | write _ _ _ hi => exact looped_loop hi

/-- The write holds back no later one: its slot has vacated, or its flag is set. -/
def Clear (c : Crew D) (v : Nat) : Prop :=
  c.machine.At v fun e => e.isVacated = true ∨ e.request.tripped = true

/-- What holds of a manager's crew whatever its threads do. -/
structure Orderly (c : Crew D) : Prop where
  recorded : c.machine.Recorded
  once : ∀ x, c.launches x ≤ 1
  launch_lt : ∀ {x : Nat}, 0 < c.launches x → x < c.machine.entries.length
  looped : ∀ {l : List (Work D)}, l ∈ c.threads → Looped l
  victim : ∀ {v x : Nat}, c.Todo (.supersede v x) → v < x ∧ c.machine.Accepted .write x ∧
    (c.machine.Accepted .write v → c.machine.LastWriteBefore x v)
  superseding : ∀ {v x : Nat}, c.machine.Accepted .write v → c.machine.Accepted .write x → v < x →
    c.Clear v ∨ ∃ w, w ≤ x ∧ c.Todo (.supersede v w)

theorem Clear.keep (h : c.Clear v) (hk : c.machine.Preserves d.machine) : d.Clear v :=
  At.keep h hk fun hef => Or.imp hef.isVacated hef.tripped

/-- A write that was to be cancelled for a later one is to be cancelled still, or holds back
nobody. -/
theorem Turns.superseding (h : Turns c d k done items rest) (hv : c.machine.Accepted .write v)
    (hw : c.machine.Accepted .write w) (hs : c.Todo (.supersede v w)) :
    d.Clear v ∨ d.Todo (.supersede v w) := by
  obtain hs | hs := h.todo hs
  · exact .inr hs
  · exact .inl ((h.superseded hs (hv.imp fun _ _ => trivial) (hw.imp fun _ _ => trivial)).imp
      fun _ => .inr)

/-- By the time a write comes in, it is to cancel the last write before it. -/
theorem Turns.supersedes_last (h : Turns c d k done items rest) (hr : c.machine.Recorded)
    (hx : d.machine.Accepted .write x) (hn : c.machine.entries.length ≤ x)
    (hv : c.machine.LastWriteBefore x v) (hocc : c.machine.vacated v = false) :
    d.Todo (.supersede v x) := by
  obtain ⟨rfl, hopen, hcurrent⟩ := h.admits.admitted_write hx hn
  refine h.todo_items (hcurrent v (Option.filter_eq_some_iff.mpr ⟨hr.current_eq hopen hv hocc, ?_⟩))
  simp [hocc]

/-- The writes before one that comes in hold it back no more, or are to be cancelled. -/
theorem Orderly.admitted (h : c.Orderly) (hk : c.machine.Preserves d.machine)
    (ht : Turns c d k done items rest) (hx : d.machine.Accepted .write x)
    (hn : c.machine.entries.length ≤ x) (hv : c.machine.Accepted .write v) (hvx : v < x) :
    d.Clear v ∨ ∃ w, w ≤ x ∧ d.Todo (.supersede v w) := by
  obtain ⟨u, hu, hvu⟩ := exists_lastWriteBefore hv hvx
  obtain rfl | hlt := Nat.eq_or_lt_of_le hvu
  · cases hocc : c.machine.vacated v with
    | true =>
        obtain ⟨e, he, hvac⟩ := vacated_eq_true_iff.mp hocc
        exact .inl (Clear.keep ⟨e, he, .inl hvac⟩ hk)
    | false => exact .inr ⟨x, Nat.le_refl _, ht.supersedes_last h.recorded hx hn hu hocc⟩
  · have hux := hu.before
    obtain hclear | ⟨w, hw, hs⟩ := h.superseding hv hu.write hlt
    · exact .inl (hclear.keep hk)
    · refine (ht.superseding hv (h.victim hs).2.1 hs).imp_right fun hs => ⟨w, by omega, hs⟩

theorem Orderly.step (h : c.Orderly) (hk : c.machine.Preserves d.machine)
    (ht : Turns c d k done items rest) : d.Orderly := by
  have hg : c.machine.Retains d.machine := hk.retains
  have hlen := hg.length_le
  refine ⟨ht.admits.recorded hg h.recorded, fun x => ?_, fun {x} hx => ?_, fun hl => ?_,
    fun {v x} hs => ?_, fun {v x} hv hx hvx => ?_⟩
  · have hle := ht.launches_le x
    have hone := h.once x
    have hlt := h.launch_lt (x := x)
    unfold fresh at hle
    split at hle <;> omega
  · have hle := ht.launches_le x
    have hlt := h.launch_lt (x := x)
    unfold fresh at hle
    split at hle <;> omega
  · obtain hl | rfl := ht.mem_threads hl
    · exact h.looped hl
    · obtain ⟨l, hl, hrest⟩ := ht.rest_suffix
      exact Looped.append (looped_of_admits ht.admits) (Looped.suffix (h.looped hl) hrest)
  · obtain hs | hs := ht.todo_cases hs
    · obtain ⟨hvx, hx, hlast⟩ := h.victim hs
      have hlt := hx.lt
      refine ⟨hvx, hg.accepted hx, fun hv => ?_⟩
      exact (hg.lastWriteBefore_iff (by omega)).mpr (hlast ((hg.accepted_iff (by omega)).mp hv))
    · obtain ⟨rfl, hx, hv⟩ := ht.admits.victim h.recorded hs
      obtain hread | hlast := hv
      · refine ⟨hread.lt, hx, fun hv => ?_⟩
        cases ((hg.accepted_iff hread.lt).mp hv).kind_unique hread
      · exact ⟨hlast.before, hx, fun _ => (hg.lastWriteBefore_iff (Nat.le_refl _)).mpr hlast⟩
  · by_cases hn : c.machine.entries.length ≤ x
    · obtain ⟨rfl, _⟩ := ht.admits.admitted_write hx hn
      exact h.admitted hk ht hx hn ((hg.accepted_iff hvx).mp hv) hvx
    · have hv := (hg.accepted_iff (by omega)).mp hv
      have hx := (hg.accepted_iff (by omega)).mp hx
      obtain hclear | ⟨w, hw, hs⟩ := h.superseding hv hx hvx
      · exact .inl (hclear.keep hk)
      · exact (ht.superseding hv (h.victim hs).2.1 hs).imp_right fun hs => ⟨w, hw, hs⟩

theorem History.orderly (h : History Move.begin permits n past c) : c.Orderly := by
  induction h with
  | start =>
      have nobody {w : Work D} : ¬(Crew.start permits n).Todo w := by
        rintro ⟨l, hl, hw⟩
        simp [List.eq_of_mem_replicate hl] at hw
      have none {kind : Kind} {i : Nat} :
          ¬(Crew.start permits n : Crew D).machine.Accepted kind i := by
        intro h
        simpa [Crew.start, Machine.start] using h.lt
      have launches (x : Nat) : (Crew.start permits n : Crew D).launches x = 0 := by
        simp [Crew.launches, Crew.start, Machine.start, counting]
      refine ⟨recorded_start permits, fun x => by simp [launches],
        fun hx => by simp [launches] at hx, fun hl => ?_, fun hs => absurd hs nobody,
        fun hv => absurd hv none⟩
      rw [List.eq_of_mem_replicate hl]
      exact looped_of_supersedes (List.forall_mem_nil _)
  | next h hs ih =>
      obtain ⟨k, done, items, rest, ht⟩ := hs.turns
      exact ih.step (hs.advances lawful_begin (h.fit lawful_begin)).keeps ht

/-- What launches a slot is the only work of any thread that does. -/
theorem Orderly.launch_unique (h : c.Orderly) {a b : Work D} (ha : c.Todo a) (hb : c.Todo b)
    (hax : a.launches? = some x) (hbx : b.launches? = some x) : a = b := by
  apply Classical.byContradiction
  intro hab
  have hmem {w : Work D} (hw : c.Todo w) : w ∈ c.threads.flatten := by
    obtain ⟨l, hl, hw⟩ := hw
    exact List.mem_flatten_of_mem hl hw
  have := one_lt_launching (hmem ha) (hmem hb) hab hax hbx
  have := h.once x
  unfold launches at this
  omega

/-- When the slot of a write is handed to the runtime, the write before it is out of the way: its
slot has vacated, or its flag is set. So is a write from further back, unless the thread that
submitted a write between the two has not come to cancel it yet. -/
theorem older_writes_clear (h : History Move.begin permits n past c)
    (hs : c.Step Move.begin ms d) (hx : c.machine.Accepted .write x)
    (hc : ¬c.machine.At x (·.stage = .dispatched)) (hd : d.machine.At x (·.stage = .dispatched))
    (hv : c.machine.Accepted .write v) (hvx : v < x) :
    (c.machine.LastWriteBefore x v → c.Clear v) ∧
    (c.Clear v ∨ ∃ w, w < x ∧ c.machine.Accepted .write w ∧ c.machine.LastWriteBefore w v ∧
      c.Todo (.supersede v w)) := by
  have ho := h.orderly
  have hadv := hs.advances lawful_begin (h.fit lawful_begin)
  obtain ⟨rest, hl⟩ := (hadv.hands hd).resolve_left hc
  have hcases : c.Clear v ∨ ∃ w, w < x ∧ c.machine.Accepted .write w ∧
      c.machine.LastWriteBefore w v ∧ c.Todo (.supersede v w) := by
    refine (ho.superseding hv hx hvx).imp id fun hw => ?_
    obtain ⟨w, hwx, hs⟩ := hw
    obtain ⟨_, hw, hlast⟩ := ho.victim hs
    refine ⟨w, Nat.lt_of_le_of_ne hwx ?_, hw, hlast hv, hs⟩
    rintro rfl
    -- The gate of the write stands behind its cancellations, so the slot would be launched twice.
    obtain ⟨l, hm, hsl⟩ := hs
    obtain ⟨a, b, rfl⟩ := List.append_of_mem hsl
    obtain ⟨ds, hds⟩ := ho.looped hm (List.suffix_append a _)
    have hchain : c.Todo (.chain w ds) := ⟨_, hm, by simp [hds]⟩
    cases ho.launch_unique ⟨_, hl, List.mem_cons_self⟩ hchain rfl rfl
  refine ⟨fun hlast => hcases.resolve_right ?_, hcases⟩
  rintro ⟨w, hwx, hw, hvw, _⟩
  exact hlast.last hvw.before hwx hw

/-- One thread has submitted a write, which parked. Another submits a second write and has cancelled
nobody yet. A third submits one more and is about to dispatch it. -/
def race : List (Nat × Option (Machine.Move Unit)) :=
  [(0, some (.submit .write { mode := .hold })), (0, none), (0, none), (0, none), (0, none),
    (1, some (.submit .write {})), (2, some (.submit .write {})), (2, none), (2, none), (2, none),
    (2, none), (2, none), (2, none), (2, none)]

def racing : Crew Unit := (Crew.start none 3).play Move.begin race

theorem older_writes_clear_racing : ∃ (past : List (Machine.Move Unit)) (d : Crew Unit),
    History Move.begin none 3 past racing ∧ racing.Step Move.begin [] d ∧
    racing.machine.Accepted .write 2 ∧ ¬racing.machine.At 2 (·.stage = .dispatched) ∧
    d.machine.At 2 (·.stage = .dispatched) ∧ racing.Clear 1 ∧ ¬racing.Clear 0 ∧
    ∃ w, w < 2 ∧ racing.machine.Accepted .write w ∧ racing.machine.LastWriteBefore w 0 ∧
      racing.Todo (.supersede 0 w) := by
  obtain ⟨past, hpast, _⟩ := History.play race
    (.start (n := 3) : History Move.begin none 3 [] (Crew.start none 3))
  have hstep : racing.Step Move.begin [] _ :=
    .work (k := 2) (w := .dispatch 2) rfl
  have hfirst : racing.machine.Accepted .write 0 := ⟨_, rfl, rfl, by decide⟩
  have hsecond : racing.machine.Accepted .write 1 := ⟨_, rfl, rfl, by decide⟩
  have hthird : racing.machine.Accepted .write 2 := ⟨_, rfl, rfl, by decide⟩
  have hlast : racing.machine.LastWriteBefore 2 1 := ⟨hsecond, by decide, fun _ _ => by omega⟩
  have hqueued : ¬racing.machine.At 2 (·.stage = .dispatched) := by
    rintro ⟨e, he, hs⟩
    have hstage : racing.machine.At 2 (·.stage = .queued) := ⟨_, rfl, rfl⟩
    cases hs.symm.trans (hstage.of_entry he)
  have hdispatched : (racing.put 2 (exec (.dispatch 2) (racing.seen [.handOver 2]))).machine.At 2
      (·.stage = .dispatched) := ⟨_, rfl, rfl⟩
  have hunclear : ¬racing.Clear 0 := by
    rintro ⟨e, he, hs⟩
    have hblocks : racing.machine.At 0 fun e => e.isVacated = false ∧ e.request.tripped = false :=
      ⟨_, rfl, rfl, rfl⟩
    obtain ⟨hvac, htrip⟩ := hblocks.of_entry he
    simp [hvac, htrip] at hs
  have hone := (older_writes_clear hpast hstep hthird hqueued hdispatched hsecond (by decide)).1
  have hzero := (older_writes_clear hpast hstep hthird hqueued hdispatched hfirst (by decide)).2
  exact ⟨_, _, hpast, hstep, hthird, hqueued, hdispatched, hone hlast, hunclear,
    hzero.resolve_left hunclear⟩

end Crew

namespace Machine

/-- A write that parked, a read that waits for it, and a write whose admission cancels both. The
cancellation of the read submits another write, which is about to be dispatched. -/
def nested : Machine Unit :=
  (start none).play 17 [.submit .write { mode := .hold }, .poll 0, .advance 0, .submit .read {},
    .onSettled 1 () [.submit .write .straight [] [] .nothing], .submit .write {}]

/-- A write is handed to the runtime while a write from before it occupies its slot and was not
cancelled. -/
theorem dispatched_beside_write : Reachable none nested ∧
    nested.Accepted .write 3 ∧ nested.At 3 (·.stage = .queued) ∧
    (∃ t, Step nested t ∧ t.At 3 (·.stage = .dispatched)) ∧
    nested.Accepted .write 0 ∧
    nested.At 0 fun e => e.isVacated = false ∧ e.request.tripped = false :=
  ⟨run_play 17 _ _, ⟨_, rfl, rfl, by decide⟩, ⟨_, rfl, rfl⟩, ⟨_, .work rfl, _, rfl, rfl⟩,
    ⟨_, rfl, rfl, by decide⟩, _, rfl, rfl, rfl⟩

end Machine

end RequestScheduler
