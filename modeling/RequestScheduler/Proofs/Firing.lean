import RequestScheduler.Proofs.Pledge

/-!
# Gates fire once

A gate is made with a list of slots that it waits for, in which a slot may stand more than once or
have vacated already. It counts one release for each of them, and one for the end of their
registration. Between any two items of the thread that makes it, other threads go on, and the slots
may vacate in any order: before they are registered, in between, or after.

What the count stands for is a release that some thread is still to carry out or some slot keeps
(`Crew.Watches.counted`). So the count is never below zero, and the gate fires with the last release
that there is: when nobody is to register anything with it any more and every slot has vacated. That
happens once (`Crew.fires_once`).
-/

namespace RequestScheduler

variable {D M : Type}

/-- What a thread does in its turn. -/
inductive Deed (M D : Type) where
  | work (w : Work D)
  | move (m : M)

/-- A turn of a thread, with the crew that it finds. -/
structure Turn (M D : Type) where
  crew : Crew D
  thread : Nat
  deed : Deed M D

namespace Turn

/-- The move that a turn makes. -/
def move? (a : Turn M D) : Option M :=
  match a.deed with
  | .work _ => none
  | .move m => some m

/-- The turn releases the gate, and the gate waits for no other release. -/
def fires (g : Nat) (a : Turn M D) : Bool :=
  match a.deed with
  | .work (.release h) => h == g && a.crew.machine.remaining g == 1
  | _ => false

end Turn

namespace Crew

open Machine

/-- A crew and the turns that led to it, the latest first. -/
inductive Log (begin : M → Machine D → Machine D) (permits : Option Permits) (n : Nat) :
    List (Turn M D) → Crew D → Prop
  | start : Log begin permits n [] (start permits n)
  | work {log : List (Turn M D)} {c : Crew D} {k : Nat} {w : Work D} {rest : List (Work D)}
      (h : Log begin permits n log c) (hk : c.threads[k]? = some (w :: rest)) :
      Log begin permits n (⟨c, k, .work w⟩ :: log) (c.put k (exec w (c.seen rest)))
  | move {log : List (Turn M D)} {c : Crew D} {k : Nat} (m : M)
      (h : Log begin permits n log c) (hk : c.threads[k]? = some []) :
      Log begin permits n (⟨c, k, .move m⟩ :: log) (c.put k (begin m (c.seen [])))

section Log

variable {begin : M → Machine D → Machine D} {permits : Option Permits} {n : Nat}
  {log : List (Turn M D)} {past : List M} {c : Crew D}

theorem Log.history (h : Log begin permits n log c) :
    History begin permits n (log.filterMap Turn.move?) c := by
  induction h with
  | start => exact .start
  | work _ hk ih => exact ih.next (.work hk)
  | move m _ hk ih => exact ih.next (.move m hk)

/-- Every history can be told turn by turn. -/
theorem History.exists_log (h : History begin permits n past c) :
    ∃ log, Log begin permits n log c ∧ log.filterMap Turn.move? = past := by
  induction h with
  | start => exact ⟨[], .start, rfl⟩
  | next _ hs ih =>
      obtain ⟨log, hlog, rfl⟩ := ih
      cases hs with
      | work hk => exact ⟨_, hlog.work hk, rfl⟩
      | move m hk => exact ⟨_, hlog.move m hk, rfl⟩

/-- What each thread does when threads take their steps in a given order, the latest first. -/
def turns (begin : M → Machine D → Machine D) : List (Nat × Option M) → Crew D → List (Turn M D)
  | [], _ => []
  | (k, m) :: l, c =>
    turns begin l (c.act begin k m) ++
      match m, c.threads[k]? with
      | none, some (w :: _) => [⟨c, k, .work w⟩]
      | some m, some [] => [⟨c, k, .move m⟩]
      | _, _ => []

theorem Log.play (l : List (Nat × Option M)) (h : Log begin permits n log c) :
    Log begin permits n (c.turns begin l ++ log) (c.play begin l) := by
  induction l generalizing c log with
  | nil => exact h
  | cons a l ih =>
      obtain ⟨k, m⟩ := a
      simp only [turns, List.append_assoc]
      refine ih ?_
      cases hk : c.threads[k]? with
      | none => cases m <;> simpa [act, hk] using h
      | some thread =>
          cases m with
          | none =>
              cases thread with
              | nil => simpa [act, hk] using h
              | cons w rest => simpa [act, hk] using h.work hk
          | some m =>
              cases thread with
              | nil => simpa [act, hk] using h.move m hk
              | cons => simpa [act, hk] using h

end Log

/-- How often the threads are going to release the gate. -/
def dues (g : Nat) (c : Crew D) : Nat := RequestScheduler.dues g c.threads.flatten

variable {c d : Crew D} {g h i k x : Nat} {w : Work D} {ds : List Nat} {t : Machine D}
  {done items rest l : List (Work D)}

theorem dues_put (hk : c.threads[k]? = some l) :
    (c.put k t).dues g + RequestScheduler.dues g l = c.dues g + RequestScheduler.dues g t.work := by
  simp only [dues, dues_flatten, put]
  exact total_map_set hk

theorem Todo.dues_pos (hw : c.Todo w) (hg : w.gate? = some g) : 0 < c.dues g := by
  obtain ⟨l, hl, hw⟩ := hw
  exact RequestScheduler.dues_pos (List.mem_flatten_of_mem hl hw) hg

/-- A release and a registration are owed apart. -/
theorem Todo.one_lt_dues (hw : c.Todo (.release g)) (hv : c.Todo (.await g i)) : 1 < c.dues g := by
  have flat {w : Work D} (hw : c.Todo w) : w ∈ c.threads.flatten := by
    obtain ⟨l, hl, hw⟩ := hw
    exact List.mem_flatten_of_mem hl hw
  obtain ⟨a, b, hab⟩ := List.append_of_mem (flat hw)
  have hpos : 0 < RequestScheduler.dues g (a ++ b) := by
    refine RequestScheduler.dues_pos (w := .await g i) ?_ rfl
    have := hab ▸ flat hv
    simpa using this
  rw [dues, hab, RequestScheduler.dues_append, RequestScheduler.dues_cons, Work.due_release,
    if_pos rfl]
  rw [RequestScheduler.dues_append] at hpos
  omega

/-- What the turn of a thread comes to that hands on what is owed. -/
structure Hands (c : Crew D) (k : Nat) (done items rest : List (Work D)) (t : Machine D) :
    Prop where
  before : c.threads[k]? = some (done ++ rest)
  transfers : Transfers done items (c.seen rest) t
  length : c.machine.entries.length ≤ t.entries.length
  owes : ∀ {g i : Nat}, c.machine.Owes g i → t.Owes g i ∨ t.vacated i = true
  vacated : ∀ {i : Nat}, c.machine.vacated i = true → t.vacated i = true
  awaited : ∀ {g i : Nat}, .await g i ∈ done → i < c.machine.entries.length →
    t.Owes g i ∨ t.vacated i = true

/-- The turn of a thread: what is owed is handed on, or a gate is to wait for a slot that is not
there. -/
inductive Goes (c : Crew D) (k : Nat) : List (Work D) → Crew D → Prop
  | hands {done items rest : List (Work D)} {t : Machine D} (h : c.Hands k done items rest t) :
      Goes c k done (c.put k t)
  | lapses {g i : Nat} {rest : List (Work D)} (hk : c.threads[k]? = some (.await g i :: rest))
      (hi : c.machine.entries.length ≤ i) : Goes c k [.await g i] (c.put k (c.seen rest))

theorem Hands.after (h : c.Hands k done items rest t) :
    (c.put k t).threads = c.threads.set k (items ++ rest) := by rw [put, h.transfers.work]; rfl

/-- What is owed to a gate and what it counts change alike. -/
theorem Hands.count (h : c.Hands k done items rest t) (g : Nat) :
    (c.put k t).dues g + t.owed g + c.machine.remaining g =
      c.dues g + c.machine.owed g + t.remaining g := by
  have hput := dues_put (g := g) (t := t) h.before
  have hcount := h.transfers.count g
  have hseen : (c.seen rest).owed g = c.machine.owed g ∧
      (c.seen rest).remaining g = c.machine.remaining g := ⟨rfl, rfl⟩
  rw [h.transfers.work, dues_append, dues_append, show (c.seen rest).work = rest from rfl] at hput
  rw [hseen.1, hseen.2] at hcount
  omega

/-- Threads and cells never owe a gate more releases than it counts, and no request keeps any. -/
structure Steady (c : Crew D) : Prop where
  bounded : ∀ g, c.dues g + c.machine.owed g ≤ c.machine.remaining g
  plain : ∀ g i, ¬c.machine.Strays g i

theorem length_le_of_entry {s t : Machine D}
    (h : ∀ {i : Nat} {e : Entry D}, s.entries[i]? = some e → ∃ f, t.entries[i]? = some f) :
    s.entries.length ≤ t.entries.length := by
  apply Nat.le_of_not_lt
  intro hlt
  obtain ⟨f, hf⟩ := h (List.getElem?_eq_getElem hlt)
  exact Nat.lt_irrefl _ (List.getElem?_eq_some_iff.mp hf).1

/-- A thread carries out a work item. The slot that it is to wait for is there, if there is one. -/
theorem Steady.hands (hc : c.Steady) (hk : c.threads[k]? = some (w :: rest))
    (hw : ∀ g i, w = .await g i → i < c.machine.entries.length) :
    ∃ items, c.Hands k [w] items rest (exec w (c.seen rest)) := by
  have hpos (g : Nat) (hw : w = .release g) : 0 < (c.seen rest).remaining g := by
    have hdue : 0 < c.dues g :=
      Todo.dues_pos ⟨_, List.mem_of_getElem? hk, List.mem_cons_self⟩ (hw ▸ rfl)
    exact Nat.lt_of_lt_of_le hdue (Nat.le_trans (Nat.le_add_right _ _) (hc.bounded g))
  obtain ⟨items, hs⟩ := exec_transfers (s := c.seen rest) w hw hpos
  refine ⟨items, hk, hs, ?_, owes_exec (s := c.seen rest) w, vacated_exec (s := c.seen rest) w,
    fun hm hi => ?_⟩
  · refine length_le_of_entry (s := c.seen rest) fun he => ?_
    obtain ⟨f, hf, _⟩ := (exec_edits w (c.seen rest)).entry he
    exact ⟨f, hf⟩
  · obtain rfl := List.mem_singleton.mp hm
    exact owes_await (s := c.seen rest) hi

theorem Steady.goes_work (hc : c.Steady) (hk : c.threads[k]? = some (w :: rest)) :
    c.Goes k [w] (c.put k (exec w (c.seen rest))) := by
  by_cases hlapse : ∃ g i, w = .await g i ∧ c.machine.entries.length ≤ i
  · obtain ⟨g, i, rfl, hi⟩ := hlapse
    have hnone : exec (.await g i) (c.seen rest) = c.seen rest := by
      simp [exec, await, seen, List.getElem?_eq_none hi]
    rw [hnone]
    exact .lapses hk hi
  · obtain ⟨_, h⟩ := hc.hands hk fun g i hw => Nat.lt_of_not_le fun hi => hlapse ⟨g, i, hw, hi⟩
    exact .hands h

/-- A thread makes a move. -/
theorem goes_move (m : Slot.Move D) (hk : c.threads[k]? = some []) :
    c.Goes k [] (c.put k (m.begin (c.seen []))) := by
  have hidles := Slot.begin_idles (s := c.seen []) m
  obtain ⟨items, hs⟩ := hidles.transfers fun g => dues_nil
  obtain ⟨_, -, -, hu⟩ := hidles
  have hlength : c.machine.entries.length ≤ (m.begin (c.seen [])).entries.length := by
    refine length_le_of_entry (s := c.seen []) fun he => ?_
    obtain ⟨f, hf, _⟩ := hu.entry he
    exact ⟨f, hf⟩
  have hhands : c.Hands k [] items [] (m.begin (c.seen [])) :=
    ⟨hk, hs, hlength, fun ho => .inl (hu.owes_of ho), hu.vacated,
      fun hm => absurd hm List.not_mem_nil⟩
  exact .hands hhands

theorem Steady.step (hc : c.Steady) (h : c.Goes k done d) : d.Steady := by
  cases h with
  | hands h =>
      refine ⟨fun g => ?_, fun g i hi => hc.plain g i (h.transfers.strays hi)⟩
      have hcount := h.count g
      have hle := hc.bounded g
      show (c.put k _).dues g + _ ≤ _
      simp only [put] at hcount ⊢
      omega
  | @lapses _ _ rest hk _ =>
      refine ⟨fun g => ?_, hc.plain⟩
      have hput := dues_put (g := g) (t := c.seen rest) hk
      have hle := hc.bounded g
      rw [dues_cons] at hput
      have hseen : (c.put k (c.seen rest)).machine.owed g = c.machine.owed g ∧
        (c.put k (c.seen rest)).machine.remaining g = c.machine.remaining g := ⟨rfl, rfl⟩
      rw [hseen.1, hseen.2]
      have : (c.seen rest).work = rest := rfl
      rw [this] at hput
      omega

theorem Log.steady {permits : Option Permits} {n : Nat} {log : List (Turn (Slot.Move D) D)}
    (h : Log Slot.Move.begin permits n log c) : c.Steady := by
  induction h with
  | start =>
      refine ⟨fun g => ?_, fun g i => ?_⟩
      · have hdues : (Crew.start permits n : Crew D).dues g = 0 := by simp [dues, Crew.start]
        rw [hdues]
        exact Nat.zero_le _
      · rintro ⟨e, he, _⟩
        simp [Crew.start, Machine.start] at he
  | work _ hk ih => exact ih.step (ih.goes_work hk)
  | move m _ hk ih => exact ih.step (goes_move m hk)

theorem owed_pos_of_owes (h : c.machine.Owes g i) : 0 < c.machine.owed g := by
  obtain ⟨e, he, hm⟩ := h
  obtain ⟨a, b, hab⟩ := List.append_of_mem (List.mem_of_getElem? he)
  have hpos : 0 < e.owed g := by
    have := RequestScheduler.dues_pos (List.mem_map_of_mem (f := Work.run) hm) rfl
    unfold Entry.owed
    omega
  simp only [Machine.owed, hab, List.map_append, List.map_cons, total_append, total_cons]
  omega

/-- A gate that is to launch slot `x` waits for the slots `ds`. What it counts is owed to it, and
each of the slots is still to be registered, keeps a release, or has vacated. -/
structure Watches (c : Crew D) (g x : Nat) (ds : List Nat) : Prop where
  slot : ∃ a, c.machine.gates[g]? = some a ∧ a.slot = x
  counted : c.machine.remaining g = c.dues g + c.machine.owed g
  there : ∀ i ∈ ds, i < c.machine.entries.length
  aims : ∀ {i : Nat}, c.Todo (.await g i) ∨ c.machine.Owes g i → i ∈ ds
  waits : ∀ i ∈ ds, c.Todo (.await g i) ∨ c.machine.Owes g i ∨ c.machine.vacated i = true

/-- A thread makes a gate. -/
theorem Steady.watches (hc : c.Steady) (hk : c.threads[k]? = some (.chain x ds :: rest))
    (hds : ∀ i ∈ ds, i < c.machine.entries.length) :
    (c.put k (exec (.chain x ds) (c.seen rest))).Watches c.machine.gates.length x ds := by
  have hnone := hc.bounded c.machine.gates.length
  rw [remaining_of_length_le (Nat.le_refl _)] at hnone
  have hbefore : c.threads[k]? = some ([.chain x ds] ++ rest) := hk
  have hafter : (c.put k (exec (.chain x ds) (c.seen rest))).threads = c.threads.set k
      ((ds.map (.await c.machine.gates.length) ++ [.release c.machine.gates.length]) ++ rest) := by
    simp [put, exec, Machine.chain, seen]
  refine ⟨⟨_, List.getElem?_concat_length, rfl⟩, ?_, hds, fun {i} hi => ?_, fun i hi => .inl ?_⟩
  · obtain ⟨_, hh⟩ := hc.hands hk (by simp)
    have hcount := hh.count c.machine.gates.length
    rw [remaining_of_length_le (Nat.le_refl _)] at hcount
    show (exec (.chain x ds) (c.seen rest)).remaining _ =
      _ + (exec (.chain x ds) (c.seen rest)).owed _
    omega
  · obtain hi | hi := hi
    · obtain hi | hi := hi.cases_of_set hbefore hafter
      · have := hi.dues_pos (g := c.machine.gates.length) rfl
        omega
      · simp only [List.mem_append, List.mem_map, Work.await.injEq, true_and, List.mem_singleton,
          reduceCtorEq, or_false] at hi
        obtain ⟨_, hm, rfl⟩ := hi
        exact hm
    · have := owed_pos_of_owes (c := c) hi
      omega
  · refine ⟨_, hafter ▸ List.mem_set (List.getElem?_eq_some_iff.mp hk).1 _, ?_⟩
    simp [hi]

/-- The gate stays, whatever the turn of a thread is. -/
theorem Watches.step (hw : c.Watches g x ds) (h : c.Goes k done d) : d.Watches g x ds := by
  obtain ⟨a, ha, hslot⟩ := hw.slot
  have hlt := (List.getElem?_eq_some_iff.mp ha).1
  cases h with
  | @hands _ items rest t h =>
      refine ⟨?_, ?_, fun i hi => Nat.lt_of_lt_of_le (hw.there i hi) h.length, fun {i} hi => ?_,
        fun i hi => ?_⟩
      · obtain ⟨b, hb, hslot', _⟩ := h.transfers.gate (s := c.seen rest) ha
        exact ⟨b, hb, hslot'.trans hslot⟩
      · have hcount := h.count g
        have := hw.counted
        show t.remaining g = _ + t.owed g
        omega
      · obtain hi | hi := hi
        · obtain hi | hi := hi.cases_of_set h.before h.after
          · exact hw.aims (.inl hi)
          · exact absurd (h.transfers.await hi) (Nat.not_le.mpr hlt)
        · obtain hi | hi := h.transfers.owes hi
          · exact hw.aims (.inr hi)
          · exact hw.aims (.inl ⟨_, List.mem_of_getElem? h.before, List.mem_append_left _ hi⟩)
      · obtain hi' | hi' | hi' := hw.waits i hi
        · obtain hi' | hi' := hi'.of_set h.before h.after
          · exact .inl hi'
          · exact .inr (h.awaited hi' (hw.there i hi))
        · exact .inr (h.owes hi')
        · exact .inr (.inr (h.vacated hi'))
  | @lapses g' j rest hk hj =>
      have hne : g' ≠ g := by
        rintro rfl
        have hmem := hw.aims (.inl ⟨_, List.mem_of_getElem? hk, List.mem_cons_self⟩)
        exact absurd (hw.there j hmem) (Nat.not_lt.mpr hj)
      have hbefore : c.threads[k]? = some ([.await g' j] ++ rest) := hk
      have hafter : (c.put k (c.seen rest)).threads = c.threads.set k ([] ++ rest) := rfl
      refine ⟨⟨a, ha, hslot⟩, ?_, hw.there, fun {i} hi => ?_, fun i hi => ?_⟩
      · have hput := dues_put (g := g) (t := c.seen rest) hk
        rw [dues_cons, Work.due_await, if_neg hne, show (c.seen rest).work = rest from rfl] at hput
        have := hw.counted
        show c.machine.remaining g = _ + c.machine.owed g
        omega
      · obtain hi | hi := hi
        · exact hw.aims (.inl ((hi.cases_of_set hbefore hafter).resolve_right List.not_mem_nil))
        · exact hw.aims (.inr hi)
      · refine (hw.waits i hi).imp_left fun hi => (hi.of_set hbefore hafter).resolve_right ?_
        intro hm
        have := List.mem_singleton.mp hm
        exact hne (Work.await.inj this).1.symm

/-- The count changes with a release and with nothing else. -/
theorem Watches.remaining (hw : c.Watches g x ds) (h : c.Goes k done d) (hn : .release g ∉ done) :
    d.machine.remaining g = c.machine.remaining g := by
  obtain ⟨a, ha, _⟩ := hw.slot
  cases h with
  | @hands _ _ rest _ h =>
      obtain ⟨b, hb, _, hrem⟩ := h.transfers.gate (s := c.seen rest) ha
      have hb := remaining_of_getElem? hb
      exact hb.trans ((hrem hn).trans (remaining_of_getElem? ha).symm)
  | lapses => rfl

/-- When the gate waits for one release only and a thread is about to carry it out, nobody is to
register anything with the gate any more, and every slot has vacated. -/
theorem Watches.clear (hw : c.Watches g x ds) (hr : c.Todo (.release g))
    (hone : c.machine.remaining g = 1) : c.dues g = 1 ∧ (∀ i, ¬c.Todo (.await g i)) ∧
      ∀ i ∈ ds, c.machine.vacated i = true := by
  have hcounted := hw.counted
  have hpos := hr.dues_pos (g := g) rfl
  have hnone (i : Nat) (hi : c.Todo (.await g i)) : False := by
    have := hr.one_lt_dues hi
    omega
  refine ⟨by omega, hnone, fun i hi => ?_⟩
  obtain hi | hi | hi := hw.waits i hi
  · exact (hnone i hi).elim
  · have := owed_pos_of_owes hi
    omega
  · exact hi

/-- When every slot has vacated, no cell keeps a release of the gate. -/
theorem Watches.owed_eq_zero (hw : c.Watches g x ds) (hc : c.Steady)
    (hv : ∀ i ∈ ds, c.machine.vacated i = true) : c.machine.owed g = 0 := by
  apply Nat.eq_zero_of_not_pos
  intro hpos
  obtain ⟨e, hm, he⟩ := exists_pos_of_total_pos hpos
  obtain ⟨i, hi⟩ := List.getElem?_of_mem hm
  have kept {l : List (Continuation D)} (h : 0 < RequestScheduler.dues g (l.map .run)) :
      .release g ∈ l := by
    obtain ⟨w, hw, hdue⟩ := exists_pos_of_total_pos h
    obtain ⟨κ, hκ, rfl⟩ := List.mem_map.mp hw
    cases κ with
    | release h =>
        rw [Work.due_run_release] at hdue
        split at hdue
        · rename_i heq
          exact heq ▸ hκ
        · cases hdue
    | react | announce => simp [Work.due, Work.gate?, Continuation.gate?] at hdue
  obtain hvac | hreq : 0 < RequestScheduler.dues g (e.vacancy.continuations.map .run) ∨
      0 < RequestScheduler.dues g (e.request.cell.continuations.map .run) := by
    unfold Entry.owed at he
    omega
  · have howes := kept hvac
    obtain ⟨f, hf, hset⟩ := vacated_eq_true_iff.mp (hv i (hw.aims (.inr ⟨e, hi, howes⟩)))
    obtain rfl := Option.some.inj (hi.symm.trans hf)
    obtain ⟨_, _, hcell⟩ := Cell.exists_of_isSettled hset
    simp [hcell, Cell.continuations] at howes
  · exact hc.plain g i ⟨e, hi, kept hreq⟩

/-- What a gate has done so far. -/
structure Fired (later : List (Turn M D)) (d : Crew D) (g x : Nat) (ds : List Nat) : Prop where
  watches : d.Watches g x ds
  once : later.countP (Turn.fires g) + (if 0 < d.machine.remaining g then 1 else 0) = 1
  positive : ∀ a ∈ later, a.deed = .work (.release g) → 0 < a.crew.machine.remaining g ∧
    (exec (.release g) (a.crew.seen [])).work =
      if a.crew.machine.remaining g = 1 then [.dispatch x] else []
  clear : ∀ a ∈ later, a.fires g = true → a.crew.dues g = 1 ∧
    (∀ i, ¬a.crew.Todo (.await g i)) ∧ ∀ i ∈ ds, a.crew.machine.vacated i = true

theorem Fired.work {later : List (Turn M D)} (h : Fired later c g x ds) (hc : c.Steady)
    (hk : c.threads[k]? = some (w :: rest)) :
    Fired (⟨c, k, .work w⟩ :: later) (c.put k (exec w (c.seen rest))) g x ds := by
  have hgoes := hc.goes_work hk
  have htodo : c.Todo w := ⟨_, List.mem_of_getElem? hk, List.mem_cons_self⟩
  by_cases hw : w = .release g
  · subst hw
    have hpos : 0 < c.machine.remaining g := by
      have := htodo.dues_pos (g := g) rfl
      have := h.watches.counted
      omega
    have hfires : (⟨c, k, .work (.release g)⟩ : Turn M D).fires g =
        (c.machine.remaining g == 1) := by simp [Turn.fires]
    refine ⟨h.watches.step hgoes, ?_, List.forall_mem_cons.mpr ⟨fun _ => ⟨hpos, ?_⟩, h.positive⟩,
      List.forall_mem_cons.mpr ⟨fun hf => ?_, h.clear⟩⟩
    · have honce := h.once
      have hrem : (c.put k (exec (.release g) (c.seen rest))).machine.remaining g =
          c.machine.remaining g - 1 := (remaining_release (s := c.seen rest) g g).trans (if_pos rfl)
      rw [List.countP_cons, hfires, hrem]
      rw [if_pos hpos] at honce
      by_cases hone : c.machine.remaining g = 1
      · simpa [hone] using honce
      · rw [if_neg (by simpa using hone), if_pos (by omega)]
        exact honce
    · obtain ⟨a, ha, rfl⟩ := h.watches.slot
      exact (work_release (s := c.seen []) ha).trans (List.append_nil _)
    · rw [hfires, beq_iff_eq] at hf
      exact h.watches.clear htodo hf
  · have hnot : (⟨c, k, .work w⟩ : Turn M D).fires g = false := by
      cases w with
      | release j =>
          have hne : j ≠ g := fun heq => hw (heq ▸ rfl)
          simp [Turn.fires, hne]
      | _ => rfl
    refine ⟨h.watches.step hgoes, ?_,
      List.forall_mem_cons.mpr ⟨fun heq => absurd (Deed.work.inj heq) hw, h.positive⟩,
      List.forall_mem_cons.mpr ⟨fun hf => absurd hf (by simp [hnot]), h.clear⟩⟩
    rw [List.countP_cons, hnot, h.watches.remaining hgoes (by simpa using Ne.symm hw)]
    simpa using h.once

theorem Fired.move {later : List (Turn (Slot.Move D) D)} (h : Fired later c g x ds)
    (m : Slot.Move D) (hk : c.threads[k]? = some []) :
    Fired (⟨c, k, .move m⟩ :: later) (c.put k (m.begin (c.seen []))) g x ds := by
  have hgoes := goes_move m hk
  refine ⟨h.watches.step hgoes, ?_, List.forall_mem_cons.mpr ⟨(nomatch ·), h.positive⟩,
    List.forall_mem_cons.mpr ⟨(nomatch ·), h.clear⟩⟩
  rw [List.countP_cons, h.watches.remaining hgoes List.not_mem_nil]
  exact h.once

section Making

variable {permits : Option Permits} {n : Nat} {before : List (Turn (Slot.Move D) D)}

/-- From the turn on that makes a gate. -/
theorem Log.fired (later : List (Turn (Slot.Move D) D))
    (h : Log Slot.Move.begin permits n (later ++ ⟨c, k, .work (.chain x ds)⟩ :: before) d)
    (hds : ∀ i ∈ ds, i < c.machine.entries.length) :
    Fired later d c.machine.gates.length x ds := by
  induction later generalizing d with
  | nil =>
      cases h with
      | @work _ _ _ _ rest h hk =>
          have hw := h.steady.watches hk hds
          have hpos : 0 < (c.put k (exec (.chain x ds) (c.seen rest))).machine.remaining
              c.machine.gates.length := by
            have hchain := remaining_chain (s := c.seen rest) x ds c.machine.gates.length
            rw [if_pos (by rfl)] at hchain
            exact Nat.lt_of_lt_of_eq (by omega) hchain.symm
          exact ⟨hw, by rw [if_pos hpos]; rfl, List.forall_mem_nil _, List.forall_mem_nil _⟩
  | cons a later ih =>
      cases h with
      | work h hk => exact (ih h).work h.steady hk
      | move m h hk => exact (ih h).move m hk

/-- A gate that is made for slots that are there counts the releases that are still owed to it, and
no release finds its count at zero. It fires, and hands its slot to be dispatched, only with the
last of them, when no slot is to be registered any more and all have vacated. It fires at most once;
and when all slots have vacated and no thread has anything more to do with the gate, it has. -/
theorem fires_once {later : List (Turn (Slot.Move D) D)}
    (h : Log Slot.Move.begin permits n (later ++ ⟨c, k, .work (.chain x ds)⟩ :: before) d)
    (hds : ∀ i ∈ ds, i < c.machine.entries.length) (hg : g = c.machine.gates.length) :
    d.machine.remaining g = d.dues g + d.machine.owed g ∧
    (∀ a ∈ later, a.deed = .work (.release g) → 0 < a.crew.machine.remaining g ∧
      (exec (.release g) (a.crew.seen [])).work =
        if a.crew.machine.remaining g = 1 then [.dispatch x] else []) ∧
    (∀ a ∈ later, a.fires g = true → a.crew.dues g = 1 ∧ (∀ i, ¬a.crew.Todo (.await g i)) ∧
      ∀ i ∈ ds, a.crew.machine.vacated i = true) ∧
    later.countP (Turn.fires g) ≤ 1 ∧
    (d.dues g = 0 → (∀ i ∈ ds, d.machine.vacated i = true) →
      later.countP (Turn.fires g) = 1 ∧ d.machine.remaining g = 0) := by
  subst hg
  have hfired := h.fired later hds
  have honce := hfired.once
  refine ⟨hfired.watches.counted, hfired.positive, hfired.clear, by omega, fun hdues hv => ?_⟩
  have hrem : d.machine.remaining c.machine.gates.length = 0 := by
    rw [hfired.watches.counted, hdues, hfired.watches.owed_eq_zero h.steady hv]
  rw [hrem] at honce
  exact ⟨by simpa using honce, hrem⟩

/-- Slots 0 and 1 and the slot that a gate is to launch. Slot 0 has vacated, and a thread is about
to make the gate. -/
def primed : Crew Unit := (Crew.start none 2).play Slot.Move.begin
  ([(0, some (.make .read (.callback {}))), (0, some (.make .read (.callback {}))),
    (0, some (.make .write (.callback {}))), (0, some (.cancel 0))] ++
    List.replicate 6 (0, none) ++ [(0, some (.chain 2 [0, 1, 1]))])

/-- The thread registers slot 0, which releases the gate at once, and slot 1. Then another thread
cancels slot 1, which vacates and releases the gate. At last slot 1 is registered once more. -/
def priming : List (Nat × Option (Slot.Move Unit)) :=
  List.replicate 3 (0, none) ++ [(1, some (.cancel 1))] ++ List.replicate 8 (1, none) ++
    List.replicate 3 (0, none)

theorem fires_once_primed : ∃ before later : List (Turn (Slot.Move Unit) Unit),
    Log Slot.Move.begin none 2 (later ++ ⟨primed, 0, .work (.chain 2 [0, 1, 1])⟩ :: before)
      (primed.play Slot.Move.begin ((0, none) :: priming)) ∧
    (∀ i ∈ [0, 1, 1], i < primed.machine.entries.length) ∧
    later.countP (Turn.fires 0) = 1 := by
  have hprimed : Log Slot.Move.begin none 2 _ primed := Log.play _ .start
  have hlog := hprimed.play ((0, none) :: priming)
  have hlater : primed.turns Slot.Move.begin ((0, none) :: priming) =
      (primed.act Slot.Move.begin 0 none).turns Slot.Move.begin priming ++
        [⟨primed, 0, .work (.chain 2 [0, 1, 1])⟩] := rfl
  rw [hlater, List.append_assoc, List.singleton_append] at hlog
  have hds : ∀ i ∈ [0, 1, 1], i < primed.machine.entries.length := by decide
  have hdues : (primed.play Slot.Move.begin ((0, none) :: priming)).dues 0 = 0 := rfl
  have hopen : ∀ i ∈ [0, 1, 1],
      (primed.play Slot.Move.begin ((0, none) :: priming)).machine.vacated i = true := by decide
  obtain ⟨-, -, -, -, hone⟩ := fires_once hlog hds rfl
  exact ⟨_, _, hlog, hds, (hone hdues hopen).1⟩

end Making

end Crew

end RequestScheduler
