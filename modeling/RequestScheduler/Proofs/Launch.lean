import RequestScheduler.Proofs.Upkeep
import RequestScheduler.Proofs.Gate

/-!
# What a step admits and launches

A step of a thread admits one request at most, and if it is a write, the step leaves the thread the
cancellations that the record decided on, and behind them the gate of the write (`Machine.Admits`).
Whatever launches a slot is handed on from work to gates and back; only an admission adds to it
(`Machine.Proceeds`). So every slot is launched once, whichever thread does it.
-/

namespace RequestScheduler

variable {D : Type}

namespace Work

/-- Whether a work item cancels a request for a later write. -/
def supersedes : Work D → Bool
  | .supersede .. => true
  | _ => false

/-- Whether a work item neither launches a slot nor supersedes a request. -/
def isApart (w : Work D) : Bool := w.launches?.isNone && !w.supersedes

theorem isApart_iff {w : Work D} :
    w.isApart = true ↔ w.launches? = none ∧ w.supersedes = false := by
  simp [isApart]

/-- How often a work item is to launch the slot. -/
def launch (x : Nat) (w : Work D) : Nat := if w.launches? = some x then 1 else 0

end Work

/-- How often a gate is to launch the slot. -/
def Gate.launch (x : Nat) (gate : Gate) : Nat := if gate.slot = x ∧ 0 < gate.remaining then 1 else 0

/-- How often the work is to launch the slot. -/
def launching (x : Nat) (l : List (Work D)) : Nat := total (l.map (Work.launch x))

section Launching

variable {x : Nat} {w : Work D} {l l₁ l₂ : List (Work D)}

@[simp] theorem launching_nil : launching x ([] : List (Work D)) = 0 := rfl

@[simp] theorem launching_cons : launching x (w :: l) = w.launch x + launching x l := rfl

@[simp] theorem launching_append : launching x (l₁ ++ l₂) = launching x l₁ + launching x l₂ := by
  simp [launching]

@[simp] theorem Work.launch_dispatch (x i : Nat) :
    (dispatch i : Work D).launch x = if x = i then 1 else 0 := by
  simp [launch, launches?, eq_comm]

@[simp] theorem Work.launch_chain (x i : Nat) (ds : List Nat) :
    (chain i ds : Work D).launch x = if x = i then 1 else 0 := by
  simp [launch, launches?, eq_comm]

theorem launching_eq_zero (h : ∀ w ∈ l, w.launches? = none) : launching x l = 0 := by
  induction l with
  | nil => rfl
  | cons w l ih =>
      obtain ⟨hw, hl⟩ := List.forall_mem_cons.mp h
      rw [launching_cons, Work.launch, hw, ih hl]
      rfl

theorem launching_of_isApart (h : ∀ w ∈ l, w.isApart = true) : launching x l = 0 :=
  launching_eq_zero fun w hw => (Work.isApart_iff.mp (h w hw)).1

theorem launching_pos (hw : w ∈ l) (hx : w.launches? = some x) : 0 < launching x l := by
  induction l with
  | nil => cases hw
  | cons v l ih =>
      rw [launching_cons]
      obtain rfl | hwl := List.mem_cons.mp hw
      · rw [Work.launch, if_pos hx]
        omega
      · exact Nat.lt_add_left _ (ih hwl)

theorem one_lt_launching {v : Work D} (hv : v ∈ l) (hw : w ∈ l) (hne : v ≠ w)
    (hvx : v.launches? = some x) (hwx : w.launches? = some x) : 1 < launching x l := by
  induction l with
  | nil => cases hv
  | cons u l ih =>
      have launch {u : Work D} (hu : u.launches? = some x) : u.launch x = 1 := by
        simp [Work.launch, hu]
      rw [launching_cons]
      obtain rfl | hvl := List.mem_cons.mp hv
      · have := launching_pos ((List.mem_cons.mp hw).resolve_left hne.symm) hwx
        rw [launch hvx]
        omega
      · obtain rfl | hwl := List.mem_cons.mp hw
        · have := launching_pos hvl hvx
          rw [launch hwx]
          omega
        · exact Nat.lt_add_left _ (ih hvl hwl)

theorem supersedes_of_isApart (h : ∀ w ∈ l, w.isApart = true) :
    ∀ w ∈ l, w.supersedes = false :=
  fun w hw => (Work.isApart_iff.mp (h w hw)).2

end Launching

namespace Machine

/-- How often gates are to launch the slot. -/
def counting (s : Machine D) (x : Nat) : Nat := total (s.gates.map (Gate.launch x))

/-- Whether the request has come in between. -/
def fresh (s t : Machine D) (x : Nat) : Nat :=
  if s.entries.length ≤ x ∧ x < t.entries.length then 1 else 0

/-- What a step that leaves these items does to the record. -/
inductive Admits (s : Machine D) : List (Work D) → Machine D → Prop
  | nobody {items : List (Work D)} {t : Machine D} (hl : t.entries.length = s.entries.length)
      (ha : t.admission = s.admission) (hi : ∀ w ∈ items, w.supersedes = false) : Admits s items t
  | prune {items : List (Work D)} {t : Machine D} (he : t.entries = s.entries)
      (ha : t.admission = s.admission.prune s.vacated) (hi : ∀ w ∈ items, w.supersedes = false) :
      Admits s items t
  | close {items : List (Work D)} {t : Machine D} (he : t.entries = s.entries)
      (ha : t.admission = (s.admission.close s.vacated).2)
      (hi : ∀ w ∈ items, w.supersedes = false) : Admits s items t
  | refuse {kind : Kind} {items : List (Work D)} {t : Machine D}
      (ht : t.entries = s.entries ++ [.refused kind]) (hc : s.admission.closed = true)
      (ha : t.admission = s.admission.reject) (hi : ∀ w ∈ items, w.supersedes = false) :
      Admits s items t
  | read {seq : UInt64} {body : Body D} {items : List (Work D)} {t : Machine D}
      (ht : t.entries = s.entries ++ [.queued .read seq (.callback body)])
      (hc : s.admission.closed = false)
      (ha : t.admission = (s.admission.nextSeq.2.admitRead s.vacated s.entries.length).2)
      (hi : ∀ w ∈ items, w.supersedes = false) : Admits s items t
  | write {seq : UInt64} {body : Body D} {after : List (Work D)} {t : Machine D}
      (ht : t.entries = s.entries ++ [.queued .write seq (.callback body)])
      (hc : s.admission.closed = false)
      (ha : t.admission = (s.admission.nextSeq.2.admitWrite s.vacated s.entries.length).2)
      (hi : ∀ w ∈ after, w.supersedes = false) :
      Admits s ((s.admission.nextSeq.2.admitWrite s.vacated s.entries.length).1.cancel.map
        (Work.supersede · s.entries.length) ++ .chain s.entries.length
          (s.admission.nextSeq.2.admitWrite s.vacated s.entries.length).1.waitFor :: after) t

/-- What a thread that has done some work comes to. -/
def Proceeds (done : List (Work D)) (s t : Machine D) : Prop :=
  ∃ items, t.work = items ++ s.work ∧ Admits s items t ∧
    ∀ x, launching x items + t.counting x ≤ launching x done + s.counting x + s.fresh t x

/-- Nobody has come in, and neither the record nor the gates have changed. -/
structure Still (s t : Machine D) : Prop where
  length : t.entries.length = s.entries.length
  admission : t.admission = s.admission
  gates : t.gates = s.gates

variable {s t u : Machine D} {i : Nat} {w : Work D} {done l after : List (Work D)}

theorem Still.trans (h₁ : s.Still t) (h₂ : t.Still u) : s.Still u :=
  ⟨h₂.length.trans h₁.length, h₂.admission.trans h₁.admission, h₂.gates.trans h₁.gates⟩

theorem Still.put {e : Entry D} (ht : t.entries = s.entries.set i e)
    (ha : t.admission = s.admission) (hg : t.gates = s.gates) : s.Still t :=
  ⟨by simp [ht], ha, hg⟩

theorem still_trip (i : Nat) (s : Machine D) : s.Still (s.trip i) := by
  unfold trip
  split
  · exact ⟨rfl, rfl, rfl⟩
  · exact .put rfl rfl rfl

theorem still_putPermit (s : Machine D) : s.Still s.putPermit :=
  have h := (touches_putPermit s).1
  ⟨h.length, h.admission, h.gates⟩

theorem counting_congr (h : t.gates = s.gates) (x : Nat) : t.counting x = s.counting x := by
  rw [counting, h, counting]

/-- Work is left that neither launches nor supersedes anybody. -/
theorem Proceeds.still (hw : t.work = l ++ s.work) (hi : ∀ w ∈ l, w.isApart = true)
    (h : s.Still t) : Proceeds done s t := by
  refine ⟨l, hw, .nobody h.length h.admission (supersedes_of_isApart hi), fun x => ?_⟩
  rw [launching_of_isApart hi, counting_congr h.gates]
  omega

theorem Proceeds.nothing (hw : t.work = s.work) (h : s.Still t) : Proceeds done s t :=
  .still (l := []) hw (List.forall_mem_nil _) h

/-- A cancellation, after what leaves the record and the gates as they are. -/
theorem proceeds_cancelThen (h : s.Still u) (hw : u.work = s.work)
    (hi : ∀ w ∈ after, w.isApart = true) : Proceeds done s (u.cancelThen i after) := by
  have htrip := h.trans (still_trip i u)
  refine .still (l := .settle i (.error .cancelled) :: after) ?_
    (List.forall_mem_cons.mpr ⟨rfl, hi⟩) ⟨htrip.length, htrip.admission, htrip.gates⟩
  rw [work_cancelThen, hw]

theorem isApart_run {l : List (Continuation D)} (hi : ∀ w ∈ after, w.isApart = true) :
    ∀ w ∈ l.map Work.run ++ after, w.isApart = true := by
  intro w hw
  obtain hw | hw := List.mem_append.mp hw
  · obtain ⟨k, _, rfl⟩ := List.mem_map.mp hw
    rfl
  · exact hi w hw

theorem isApart_perform {l : List (Effect D)} (hi : ∀ w ∈ after, w.isApart = true) :
    ∀ w ∈ l.map Work.perform ++ after, w.isApart = true := by
  intro w hw
  obtain hw | hw := List.mem_append.mp hw
  · obtain ⟨a, _, rfl⟩ := List.mem_map.mp hw
    rfl
  · exact hi w hw

theorem proceeds_skip : Proceeds done s (s.skip i) := by
  unfold skip
  split
  · exact .nothing rfl ⟨rfl, rfl, rfl⟩
  split
  · exact .still (l := [.openVacancy i]) rfl (List.forall_mem_singleton.mpr rfl)
      (.put rfl rfl rfl)
  · exact .nothing rfl ⟨rfl, rfl, rfl⟩

theorem proceeds_openVacancy (h : s.Still u) (hw : u.work = s.work)
    (hi : ∀ w ∈ after, w.isApart = true) : Proceeds done s (u.openVacancy i after) := by
  unfold openVacancy
  split
  · exact .nothing hw h
  split
  · exact .nothing hw h
  · rename_i e _ _
    exact .still (l := e.vacancy.continuations.map .run ++ after) (by simp [hw])
      (isApart_run hi) (h.trans (.put rfl rfl rfl))

theorem proceeds_endTask : Proceeds done s (s.endTask i) := by
  unfold endTask
  split
  · exact .nothing rfl ⟨rfl, rfl, rfl⟩
  rename_i e _
  have hput : s.Still ({ s with ready := s.ready.remove i }.put i
      { e with task := .ended, callback := e.callback.close }) := .put rfl rfl rfl
  have last {u : Machine D} (h : s.Still u) (hw : u.work = s.work) :
      Proceeds done s (u.push [.settle i (.error .cancelled), .vacate i]) :=
    .still (l := [.settle i (.error .cancelled), .vacate i]) (by simp [push, hw])
      (List.forall_mem_cons.mpr ⟨rfl, List.forall_mem_singleton.mpr rfl⟩)
      ⟨h.length, h.admission, h.gates⟩
  dsimp only
  split
  · exact last (hput.trans (still_putPermit _)) (work_putPermit _)
  · exact last (hput.trans (still_putPermit _)) (work_putPermit _)
  · exact last ⟨hput.length, hput.admission, hput.gates⟩ rfl
  · exact last hput rfl

/-- The record forgets who has vacated. -/
theorem Proceeds.prune (hw : t.work = l ++ s.work) (hi : ∀ w ∈ l, w.isApart = true)
    (he : t.entries = s.entries) (ha : t.admission = s.admission.prune s.vacated)
    (hg : t.gates = s.gates) : Proceeds done s t := by
  refine ⟨l, hw, .prune he ha (supersedes_of_isApart hi), fun x => ?_⟩
  rw [launching_of_isApart hi, counting_congr hg]
  omega

theorem fresh_append {e : Entry D} (ht : t.entries = s.entries ++ [e]) (x : Nat) :
    s.fresh t x = if x = s.entries.length then 1 else 0 := by
  simp only [fresh, ht, List.length_append, List.length_singleton]
  congr 1
  rw [eq_iff_iff]
  omega

/-- A submission launches its own request and no other. -/
theorem proceeds_submit {kind : Kind} {body : Body D} (ha : ∀ w ∈ after, w.isApart = true) :
    Proceeds done s (s.submit kind body after) := by
  have hover (n : Nat) : ∀ w ∈ Work.handOver n :: after, w.isApart = true :=
    List.forall_mem_cons.mpr ⟨rfl, ha⟩
  have admitted {t : Machine D} {e : Entry D} {items : List (Work D)}
      (ht : t.entries = s.entries ++ [e]) (hg : t.gates = s.gates)
      (hi : ∀ x, launching x items = if x = s.entries.length then 1 else 0) (x : Nat) :
      launching x items + t.counting x ≤ launching x done + s.counting x + s.fresh t x := by
    rw [hi, counting_congr hg, fresh_append ht]
    omega
  unfold submit
  dsimp only
  split
  · rename_i hc
    have hitems : ∀ w ∈ Work.settle s.entries.length (.error .shutdownRejected) ::
        .handOver s.entries.length :: after, w.isApart = true :=
      List.forall_mem_cons.mpr ⟨rfl, hover _⟩
    refine ⟨_, rfl, .refuse rfl hc rfl (supersedes_of_isApart hitems), fun x => ?_⟩
    rw [launching_of_isApart hitems]
    exact Nat.le_add_right_of_le (by simp [counting])
  rename_i hc
  have hc : s.admission.closed = false := by simpa using hc
  cases kind with
  | read =>
      dsimp only
      split
      · refine ⟨.dispatch _ :: .note _ :: .handOver _ :: after, rfl, .read rfl hc rfl
          (List.forall_mem_cons.mpr ⟨rfl, List.forall_mem_cons.mpr
            ⟨rfl, supersedes_of_isApart (hover _)⟩⟩), admitted rfl rfl fun x => ?_⟩
        rw [launching_cons, launching_of_isApart (List.forall_mem_cons.mpr ⟨rfl, hover _⟩),
          Work.launch_dispatch, Nat.add_zero]
      · refine ⟨.chain _ [_] :: .handOver _ :: after, rfl, .read rfl hc rfl
          (List.forall_mem_cons.mpr ⟨rfl, supersedes_of_isApart (hover _)⟩),
          admitted rfl rfl fun x => ?_⟩
        rw [launching_cons, launching_of_isApart (hover _), Work.launch_chain, Nat.add_zero]
  | write =>
      refine ⟨_, by rw [List.append_assoc], .write rfl hc rfl (supersedes_of_isApart (hover _)),
        admitted rfl rfl fun x => ?_⟩
      rw [launching_append, launching_eq_zero fun w hw => ?_, launching_cons,
        launching_of_isApart (hover _), Work.launch_chain, Nat.zero_add, Nat.add_zero]
      obtain ⟨v, _, rfl⟩ := List.mem_map.mp hw
      rfl

theorem proceeds_cancelAll (ha : ∀ w ∈ after, w.isApart = true) :
    Proceeds done s (s.cancelAll after) :=
  .prune (l := .cancelEach _ _ 0 :: after) rfl (List.forall_mem_cons.mpr ⟨rfl, ha⟩) rfl rfl rfl

theorem proceeds_onSettled {tag : D} {effects : List (Effect D)}
    (ha : ∀ w ∈ after, w.isApart = true) : Proceeds done s (s.onSettled i tag effects after) := by
  unfold onSettled
  split
  · exact .still rfl ha ⟨rfl, rfl, rfl⟩
  split
  · exact .still (l := .run (.react tag effects) :: after) rfl
      (List.forall_mem_cons.mpr ⟨rfl, ha⟩) ⟨rfl, rfl, rfl⟩
  · exact .still rfl ha (.put rfl rfl rfl)

/-- What a client's code does. -/
theorem proceeds_perform (a : Effect D) : Proceeds done s (s.perform a) := by
  have one {w : Work D} (hw : w.isApart = true) : ∀ v ∈ [w], v.isApart = true :=
    List.forall_mem_singleton.mpr hw
  cases a with
  | set | add | mul | log | status => exact .nothing rfl ⟨rfl, rfl, rfl⟩
  | submit => exact proceeds_submit (one rfl)
  | cancel =>
      unfold perform
      dsimp only
      split
      · exact .nothing rfl ⟨rfl, rfl, rfl⟩
      · exact proceeds_cancelThen ⟨rfl, rfl, rfl⟩ rfl (one rfl)
  | cancelAll => exact proceeds_cancelAll (one rfl)
  | snapshot => exact .prune (l := []) rfl (List.forall_mem_nil _) rfl rfl rfl
  | onSettled =>
      unfold perform
      dsimp only
      split
      · exact .nothing rfl ⟨rfl, rfl, rfl⟩
      · exact proceeds_onSettled (one rfl)

/-- The launch of a slot is handed from work to a gate. -/
theorem proceeds_chain (x : Nat) (ds : List Nat) :
    Proceeds [.chain x ds] s (s.chain x ds) := by
  have hitems : ∀ w ∈ ds.map (Work.await (D := D) s.gates.length) ++ [.release s.gates.length],
      w.isApart = true := by
    intro w hw
    simp only [List.mem_append, List.mem_map, List.mem_singleton] at hw
    obtain ⟨d, _, rfl⟩ | rfl := hw <;> rfl
  refine ⟨_, by simp [chain], .nobody rfl rfl (supersedes_of_isApart hitems), fun y => ?_⟩
  have hgate :
      Gate.launch y { slot := x, remaining := ds.length + 1 } = if y = x then 1 else 0 := by
    simp [Gate.launch, eq_comm]
  rw [launching_of_isApart hitems, launching_cons, Work.launch_chain]
  simp only [counting, chain, List.map_append, total_append, List.map_cons, List.map_nil,
    total_cons, total_nil, hgate]
  omega

/-- The last release hands the launch back to work. -/
theorem proceeds_release (g : Nat) : Proceeds done s (s.release g) := by
  unfold release
  split
  · exact .nothing rfl ⟨rfl, rfl, rfl⟩
  rename_i gate hgate
  refine ⟨if gate.remaining = 1 then [.dispatch gate.slot] else [], by split <;> rfl,
    .nobody rfl rfl (by split <;> simp [Work.supersedes]), fun x => ?_⟩
  have hset := total_map_set (f := Gate.launch x)
    (b := { gate with remaining := gate.remaining - 1 }) hgate
  suffices launching x (if gate.remaining = 1 then [.dispatch gate.slot] else [] : List (Work D)) +
      Gate.launch x { gate with remaining := gate.remaining - 1 } ≤ gate.launch x by
    simp only [counting]
    omega
  split
  · rename_i hone
    simp [Gate.launch, hone, eq_comm]
  · simp only [launching_nil, Gate.launch, Nat.zero_add]
    split <;> split <;> omega

/-- Work leads to what steps come to. -/
theorem exec_proceeds (w : Work D) : Proceeds [w] s (exec w s) := by
  have quiet {t : Machine D} (hw : t.work = s.work) (he : t.entries = s.entries)
      (ha : t.admission = s.admission) (hg : t.gates = s.gates) : Proceeds [w] s t :=
    .nothing hw ⟨by rw [he], ha, hg⟩
  have one {w : Work D} (hw : w.isApart = true) : ∀ v ∈ [w], v.isApart = true :=
    List.forall_mem_singleton.mpr hw
  cases w with
  | perform a => exact proceeds_perform a
  | emit | note | reportTally => exact quiet rfl rfl rfl rfl
  | run k =>
      cases k with
      | announce => exact quiet rfl rfl rfl rfl
      | release g => exact .still (l := [.release g]) rfl (one rfl) ⟨rfl, rfl, rfl⟩
      | react tag effects =>
          exact .still (l := effects.map .perform) rfl (by simp [Work.isApart, Work.launches?,
            Work.supersedes]) ⟨rfl, rfl, rfl⟩
  | settle i o =>
      simp only [exec, settle]
      split
      · exact quiet rfl rfl rfl rfl
      split
      · exact quiet rfl rfl rfl rfl
      · rename_i e _ _
        refine .still (l := e.request.cell.continuations.map .run) rfl ?_ (.put rfl rfl rfl)
        intro w hw
        obtain ⟨k, _, rfl⟩ := List.mem_map.mp hw
        rfl
  | cancelSlot i => exact proceeds_cancelThen ⟨rfl, rfl, rfl⟩ rfl (one rfl)
  | supersede i x =>
      simp only [exec, supersede]
      split
      · refine proceeds_cancelThen ⟨rfl, rfl, rfl⟩ rfl (List.forall_mem_cons.mpr ⟨rfl, ?_⟩)
        split
        · exact List.forall_mem_nil _
        · exact one rfl
      · exact quiet rfl rfl rfl rfl
  | cancelEach ids total count =>
      cases ids with
      | nil => exact quiet rfl rfl rfl rfl
      | cons i ids =>
          exact proceeds_cancelThen ⟨rfl, rfl, rfl⟩ rfl (List.forall_mem_cons.mpr ⟨rfl, one rfl⟩)
  | skip i => exact proceeds_skip
  | openVacancy i => exact proceeds_openVacancy ⟨rfl, rfl, rfl⟩ rfl (List.forall_mem_nil _)
  | vacate i =>
      simp only [exec, vacate]
      split
      · exact quiet rfl rfl rfl rfl
      · exact proceeds_openVacancy (.put rfl rfl rfl) rfl (one rfl)
  | dispatch i =>
      simp only [exec, dispatch]
      split
      · exact quiet rfl rfl rfl rfl
      split
      · split
        · exact proceeds_skip
        split
        · exact .nothing rfl (.put rfl rfl rfl)
        · exact .still (l := [.endTask i]) rfl (one rfl) (.put rfl rfl rfl)
      · exact quiet rfl rfl rfl rfl
  | chain x ds => exact proceeds_chain x ds
  | await g d =>
      simp only [exec, await]
      split
      · exact quiet rfl rfl rfl rfl
      split
      · exact .still (l := [.release g]) rfl (one rfl) ⟨rfl, rfl, rfl⟩
      · exact .nothing rfl (.put rfl rfl rfl)
  | release g => exact proceeds_release g
  | endTask i => exact proceeds_endTask
  | handOver i =>
      simp only [exec, handOver]
      split
      · exact quiet rfl rfl rfl rfl
      · exact .nothing rfl (.put rfl rfl rfl)
  | park i body =>
      simp only [exec, park]
      split
      · exact quiet rfl rfl rfl rfl
      · exact .nothing rfl (.put rfl rfl rfl)
  | finish i r =>
      simp only [exec, finish]
      split
      · exact quiet rfl rfl rfl rfl
      split <;> exact .nothing rfl (.put rfl rfl rfl)

/-- The record and the gates stay as they are, and work is left that neither launches nor supersedes
anybody. -/
def GoesOn (s t : Machine D) : Prop :=
  ∃ items, t.work = items ++ s.work ∧ (∀ w ∈ items, w.isApart = true) ∧ s.Still t

theorem GoesOn.nothing (hw : t.work = s.work) (h : s.Still t) : s.GoesOn t :=
  ⟨[], hw, List.forall_mem_nil _, h⟩

theorem goesOn_startJob : s.GoesOn (s.startJob i) := by
  unfold startJob
  split
  · exact .nothing rfl ⟨rfl, rfl, rfl⟩
  split
  · exact .nothing rfl (.put rfl rfl rfl)
  · rename_i outcome _
    refine ⟨(outcome.map (Work.settle i)).toList ++ [.endTask i], rfl, fun w hw => ?_,
      .put rfl rfl rfl⟩
    cases outcome with
    | none => exact List.mem_singleton.mp hw ▸ rfl
    | some o =>
        simp only [Option.map_some, Option.toList_some, List.cons_append, List.nil_append,
          List.mem_cons, List.not_mem_nil, or_false] at hw
        obtain rfl | rfl := hw <;> rfl
  · split
    · exact ⟨[_, _], rfl, List.forall_mem_cons.mpr ⟨rfl, List.forall_mem_singleton.mpr rfl⟩,
        .put rfl rfl rfl⟩
    · exact .nothing rfl (.put rfl rfl rfl)
  · exact .nothing rfl (.put rfl rfl rfl)

theorem goesOn_closeOut : s.GoesOn (s.closeOut i) := by
  unfold closeOut
  split
  · exact .nothing rfl ⟨rfl, rfl, rfl⟩
  rename_i e _
  have hput : s.Still (s.put i { e with task := .ended }) := .put rfl rfl rfl
  have last {u : Machine D} (hu : s.Still u) (hw : u.work = s.work) :
      s.GoesOn (u.cancelThen i [.endTask i]) := by
    have htrip := hu.trans (still_trip i u)
    refine ⟨[.settle i (.error .cancelled), .endTask i], ?_, List.forall_mem_cons.mpr
      ⟨rfl, List.forall_mem_singleton.mpr rfl⟩, htrip.length, htrip.admission, htrip.gates⟩
    rw [work_cancelThen, hw]
  dsimp only
  split
  · exact last (hput.trans (still_putPermit _)) (work_putPermit _)
  · exact last hput rfl

theorem goesOn_continueJob : s.GoesOn (s.continueJob i) := by
  unfold continueJob
  split
  · exact .nothing rfl ⟨rfl, rfl, rfl⟩
  rename_i e _
  split
  · rename_i o _
    refine ⟨panicNote e.kind o ++ [.settle i o, .endTask i], rfl, fun w hw => ?_, .put rfl rfl rfl⟩
    simp only [panicNote, List.mem_append, List.mem_map, List.mem_cons, List.not_mem_nil,
      or_false] at hw
    obtain ⟨_, _, rfl⟩ | rfl | rfl := hw <;> rfl
  · split
    · exact ⟨[_, _], rfl, List.forall_mem_cons.mpr ⟨rfl, List.forall_mem_singleton.mpr rfl⟩,
        .put rfl rfl rfl⟩
    · exact .nothing rfl ⟨rfl, rfl, rfl⟩
  · exact .nothing rfl ⟨rfl, rfl, rfl⟩

/-- The poll of a task admits and launches nobody. -/
theorem goesOn_poll : s.GoesOn (s.poll i) := by
  have idle : s.GoesOn s := .nothing rfl ⟨rfl, rfl, rfl⟩
  unfold poll
  split
  · exact idle
  split
  · exact idle
  · exact idle
  · split
    · split
      · exact goesOn_closeOut
      · rename_i p _
        obtain ⟨items, hw, hi, h⟩ := goesOn_startJob (s := { s with permits := some p }) (i := i)
        exact ⟨items, hw, hi, h.length, h.admission, h.gates⟩
      · exact .nothing rfl (.put rfl rfl rfl)
    · exact goesOn_startJob
  · split
    · exact goesOn_closeOut
    · exact idle
  · split
    · exact goesOn_closeOut
    · exact goesOn_startJob
  · exact goesOn_continueJob

/-- The record closes. -/
theorem proceeds_closeDown : Proceeds done s s.closeDown := by
  have hitems : ∀ w ∈ (s.admission.close s.vacated).1.map (Work.cancelSlot (D := D)),
      w.isApart = true := by
    intro w hw
    obtain ⟨i, _, rfl⟩ := List.mem_map.mp hw
    rfl
  refine ⟨_, work_closeDown s, .close (entries_closeDown s) (admission_closeDown s)
    (supersedes_of_isApart hitems), fun x => ?_⟩
  rw [launching_of_isApart hitems, counting_congr (gates_closeDown s)]
  omega

/-- Moves lead to what steps come to. -/
theorem begin_proceeds (m : Move D) : Proceeds [] s (m.begin s) := by
  have nobody : ∀ w ∈ ([] : List (Work D)), w.isApart = true := List.forall_mem_nil _
  have quiet {t : Machine D} (hw : t.work = s.work) (he : t.entries = s.entries)
      (ha : t.admission = s.admission) (hg : t.gates = s.gates) : Proceeds [] s t :=
    .nothing hw ⟨by rw [he], ha, hg⟩
  have modified (i : Nat) (g : Entry D → Entry D) : Proceeds [] s (s.modify i g) := by
    unfold modify
    split
    · exact quiet rfl rfl rfl rfl
    · exact .nothing rfl (.put rfl rfl rfl)
  cases m with
  | submit => exact proceeds_submit nobody
  | cancel =>
      simp only [Move.begin]
      split
      · exact proceeds_cancelThen ⟨rfl, rfl, rfl⟩ rfl nobody
      · exact quiet rfl rfl rfl rfl
  | cancelAll => exact proceeds_cancelAll nobody
  | snapshot => exact .prune (l := []) rfl nobody rfl rfl rfl
  | onSettled => exact proceeds_onSettled nobody
  | effects es =>
      exact .still (l := es.map .perform) rfl (by simp [Work.isApart, Work.launches?,
        Work.supersedes]) ⟨rfl, rfl, rfl⟩
  | shutdown => exact proceeds_closeDown
  | report => exact quiet rfl rfl rfl rfl
  | trip i =>
      simp only [Move.begin]
      split
      · exact .nothing (work_trip i s) (still_trip i s)
      · exact quiet rfl rfl rfl rfl
  | awaitRequest i => exact modified i _
  | takeOutcome i => exact modified i _
  | dropFuture i => exact modified i _
  | release i =>
      refine .nothing (work_releaseJob i s) ?_
      simp only [Move.begin, releaseJob]
      split
      · exact ⟨rfl, rfl, rfl⟩
      · repeat' split
        all_goals exact .put rfl rfl rfl
  | poll i =>
      simp only [Move.begin]
      split
      · exact quiet rfl rfl rfl rfl
      · rename_i rest _
        obtain ⟨items, hw, hi, h⟩ := goesOn_poll (s := { s with ready := rest }) (i := i)
        exact .still hw hi ⟨h.length, h.admission, h.gates⟩
  | advance i =>
      simp only [Move.begin, advance]
      split
      · exact quiet rfl rfl rfl rfl
      split
      · rename_i body _
        refine .still rfl (isApart_perform fun w hw => ?_) (.put rfl rfl rfl)
        split at hw
        · exact isApart_perform (List.forall_mem_singleton.mpr rfl) w hw
        all_goals exact List.mem_singleton.mp hw ▸ rfl
      · exact .still rfl (isApart_perform (List.forall_mem_singleton.mpr rfl)) (.put rfl rfl rfl)
      · exact quiet rfl rfl rfl rfl
  | pause => exact quiet rfl rfl rfl rfl
  | lose tasks =>
      simp only [Move.begin]
      split
      · exact .still (l := tasks.map .endTask) rfl (by simp [Work.isApart, Work.launches?,
          Work.supersedes]) ⟨rfl, rfl, rfl⟩
      · exact quiet rfl rfl rfl rfl

end Machine

end RequestScheduler
