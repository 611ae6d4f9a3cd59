import RequestScheduler.Proofs.Supersession

/-!
# Gates

A gate counts what was pledged to release it: a work item, or a continuation at the vacancy of a
slot that the gate waits for. A queued slot has one thing that will launch it: the work of making
its gate, the gate while it counts, or the work of dispatching it. Since every slot that it is to
wait for and that has not vacated pledges a release, it is launched when all of these have vacated,
and not before.

`Gated` is the invariant. Changes that leave slots, gates and the work on gates as they are keep it
(`Gated.frame`), and so does a slot that leaves the queue (`Gated.leave`).
-/

namespace RequestScheduler

variable {D : Type}

/-- The gate that a continuation releases. -/
def Continuation.gate? : Continuation D → Option Nat
  | .release g => some g
  | _ => none

/-- The gates that wait for the slot to vacate. -/
def Entry.moorings (e : Entry D) : List Nat := e.vacancy.continuations.filterMap Continuation.gate?

namespace Work

/-- The gate that a work item releases in the end. -/
def gate? : Work D → Option Nat
  | .await g _ | .release g => some g
  | .run k => k.gate?
  | _ => none

/-- The request that a work item launches, or makes a gate for. -/
def launches? : Work D → Option Nat
  | .chain x _ | .dispatch x => some x
  | _ => none

/-- Work on gates. -/
def isDuty : Work D → Bool
  | .chain .. | .dispatch _ | .await .. | .release _ => true
  | .run k => k.gate?.isSome
  | _ => false

theorem isDuty_of_isIdle {w : Work D} (h : w.isIdle = true) : w.isDuty = false := by
  cases w with
  | run k => cases k <;> simp_all [isIdle, isDuty, Continuation.gate?]
  | _ => simp_all [isIdle, isDuty]

theorem isDuty_of_launches? {w : Work D} {x : Nat} (h : w.launches? = some x) :
    w.isDuty = true := by
  cases w with
  | chain | dispatch => rfl
  | _ => cases h

theorem isDuty_of_gate? {w : Work D} {g : Nat} (h : w.gate? = some g) :
    w.isDuty = true := by
  cases w with
  | await | release => rfl
  | run k => simp_all [gate?, isDuty]
  | _ => cases h

end Work

namespace Machine

/-- The work on gates that is to be done. -/
def duties (s : Machine D) : List (Work D) := s.work.filter Work.isDuty

/-- The gates that wait for each slot. -/
def moorings (s : Machine D) : List (List Nat) := s.entries.map Entry.moorings

/-- How often a gate is going to be released. -/
def pledges (s : Machine D) (g : Nat) : Nat :=
  (s.duties.filterMap Work.gate?).count g + total (s.moorings.map (·.count g))

/-- How often a gate still has to be released. -/
def remaining (s : Machine D) (g : Nat) : Nat :=
  match s.gates[g]? with
  | some gate => gate.remaining
  | none => 0

/-- How many work items and counting gates are there to launch a request. -/
def launches (s : Machine D) (x : Nat) : Nat :=
  (s.duties.filterMap Work.launches?).count x +
    s.gates.countP fun gate => decide (gate.slot = x ∧ 0 < gate.remaining)

/-- The slot `d` releases the gate when it vacates. -/
def Moored (s : Machine D) (g d : Nat) : Prop := ∃ m, s.moorings[d]? = some m ∧ g ∈ m

/-- The gate waits for `d`, or is about to. -/
def Pledged (s : Machine D) (g d : Nat) : Prop := .await g d ∈ s.duties ∨ s.Moored g d

/-- The request `x` is held back by `d`. -/
def Held (s : Machine D) (x d : Nat) : Prop :=
  (∃ ds, .chain x ds ∈ s.duties ∧ d ∈ ds) ∨
    ∃ g gate, s.gates[g]? = some gate ∧ gate.slot = x ∧ s.Pledged g d

/-- Who waits for whom is what the order of admission says. -/
structure Gated (s : Machine D) : Prop where
  pledged : ∀ g, s.pledges g = s.remaining g
  once : ∀ x, s.launches x ≤ 1
  queued : ∀ {x : Nat}, s.At x (·.stage = .queued) → 1 ≤ s.launches x
  awaiting : ∀ {g d : Nat}, s.Pledged g d →
    ∃ gate, s.gates[g]? = some gate ∧ s.Awaits gate.slot d
  chained : ∀ {x d : Nat} {ds : List Nat}, .chain x ds ∈ s.duties → d ∈ ds → s.Awaits x d
  held : ∀ {x d : Nat}, s.Awaits x d → s.vacated d = false → s.Held x d
  clear : ∀ {x d : Nat}, s.At x (·.task ≠ .unspawned) → s.Awaits x d → s.vacated d = true
  gate_lt : ∀ {gate : Gate}, gate ∈ s.gates → gate.slot < s.entries.length
  launch_lt : ∀ {w : Work D} {x : Nat}, w ∈ s.duties → w.launches? = some x →
    x < s.entries.length

variable {s t : Machine D} {i d x g : Nat} {e f : Entry D} {w : Work D}
  {l r : List (Work D)}

/-- What launches a request is a work item, or a gate that is counting. -/
theorem exists_of_launches_pos (h : 0 < s.launches x) :
    (∃ w ∈ s.duties, w.launches? = some x) ∨
      ∃ (g : Nat) (gate : Gate), s.gates[g]? = some gate ∧ gate.slot = x ∧ 0 < gate.remaining := by
  by_cases hw : 0 < (s.duties.filterMap Work.launches?).count x
  · exact .inl (List.mem_filterMap.mp (List.count_pos_iff.mp hw))
  · have hc : 0 < s.gates.countP fun gate => decide (gate.slot = x ∧ 0 < gate.remaining) := by
      rw [launches] at h
      omega
    obtain ⟨gate, hm, hgate⟩ := List.countP_pos_iff.mp hc
    obtain ⟨g, hg⟩ := List.getElem?_of_mem hm
    exact .inr ⟨g, gate, hg, of_decide_eq_true hgate⟩

/-- What is going to release a gate is a work item, or a slot that has not vacated. -/
theorem exists_of_pledges_pos (h : 0 < s.pledges g) :
    (∃ w ∈ s.duties, w.gate? = some g) ∨ ∃ d, s.Moored g d := by
  by_cases hw : 0 < (s.duties.filterMap Work.gate?).count g
  · exact .inl (List.mem_filterMap.mp (List.count_pos_iff.mp hw))
  · have hm : 0 < total (s.moorings.map (·.count g)) := by
      rw [pledges] at h
      omega
    obtain ⟨m, hm, hg⟩ := exists_pos_of_total_pos hm
    obtain ⟨d, hd⟩ := List.getElem?_of_mem hm
    exact .inr ⟨d, m, hd, List.count_pos_iff.mp hg⟩

theorem pledges_pos_of_duty (hw : w ∈ s.duties) (hg : w.gate? = some g) : 0 < s.pledges g := by
  have := List.count_pos_iff.mpr (List.mem_filterMap.mpr ⟨w, hw, hg⟩)
  unfold pledges
  omega

theorem Moored.pledges_pos (h : s.Moored g d) : 0 < s.pledges g := by
  obtain ⟨m, hm, hg⟩ := h
  have := List.count_pos_iff.mpr hg
  have := total_map_set (f := fun m : List Nat => m.count g) (b := []) hm
  simp only [List.count_nil] at this
  unfold pledges
  omega

theorem moored_congr (h : t.moorings = s.moorings) : t.Moored g d ↔ s.Moored g d := by
  rw [Moored, h, Moored]

/-- A slot that releases a gate has not vacated. -/
theorem Moored.vacated (h : s.Moored g d) : s.vacated d = false := by
  obtain ⟨m, hm, hg⟩ := h
  rw [moorings, List.getElem?_map, Option.map_eq_some_iff] at hm
  obtain ⟨e, he, rfl⟩ := hm
  rw [Machine.vacated, he]
  cases hv : e.vacancy with
  | pending => simp [Entry.isVacated, hv]
  | settled => simp [Entry.moorings, hv, Cell.continuations] at hg

/-- What launches a request is the only work item that does. -/
theorem Gated.launch_unique {a b : List (Work D)} {v : Work D} (h : s.Gated)
    (hw : s.duties = a ++ w :: b) (hx : w.launches? = some x) (hv : v ∈ a ++ b) :
    v.launches? ≠ some x := by
  intro hvx
  have hone := h.once x
  have := List.count_pos_iff.mpr (List.mem_filterMap.mpr ⟨v, hv, hvx⟩)
  rw [launches, hw, List.filterMap_append, List.filterMap_cons_some hx, List.count_append,
    List.count_cons_self] at hone
  rw [List.filterMap_append, List.count_append] at this
  omega

/-- A request that a work item launches has no gate that is going to be released. -/
theorem Gated.pledges_eq_zero {gate : Gate} (h : s.Gated) (hw : w ∈ s.duties)
    (hx : w.launches? = some x) (hg : s.gates[g]? = some gate) (hs : gate.slot = x) :
    s.pledges g = 0 := by
  have hone := h.once x
  have hpos := List.count_pos_iff.mpr (List.mem_filterMap.mpr ⟨w, hw, hx⟩)
  have hcount : s.pledges g = gate.remaining := by rw [h.pledged g, remaining, hg]
  apply Nat.eq_zero_of_not_pos
  intro hp
  have : 0 < s.gates.countP fun b => decide (b.slot = x ∧ 0 < b.remaining) :=
    List.countP_pos_iff.mpr ⟨gate, List.mem_of_getElem? hg, decide_eq_true ⟨hs, hcount ▸ hp⟩⟩
  unfold launches at hone
  omega

/-- A request that is about to be dispatched is held back by nobody. -/
theorem Gated.not_held (h : s.Gated) (hx : .dispatch x ∈ s.duties) : ¬s.Held x d := by
  rintro (⟨ds, hc, _⟩ | ⟨g, gate, hgate, hs, hp⟩)
  · obtain ⟨a, b, hab⟩ := List.append_of_mem hx
    have hc : Work.chain x ds ∈ a ++ b := by
      rw [hab, List.mem_append, List.mem_cons] at hc
      simpa using hc
    exact h.launch_unique hab rfl hc rfl
  · have hzero := h.pledges_eq_zero hx rfl hgate hs
    have hpos : 0 < s.pledges g := hp.elim (pledges_pos_of_duty · rfl) Moored.pledges_pos
    omega

/-- Changes that open no vacancy and let nobody wait: a dispatch that was to be done may have been,
when its slot has left the queue. -/
theorem Gated.change (h : s.Gated) (hg : s.Grows t) (hl : t.entries.length = s.entries.length)
    (hm : t.moorings = s.moorings) (hgates : t.gates = s.gates) (hd : s.duties = l ++ t.duties)
    (hdone : ∀ w ∈ l, ∃ x, w = .dispatch x ∧ ∀ e, t.entries[x]? = some e → e.stage ≠ .queued)
    (hv : ∀ i, t.vacated i = s.vacated i)
    (hs : ∀ {i : Nat}, t.At i (·.task ≠ .unspawned) →
      s.At i (·.task ≠ .unspawned) ∨ .dispatch i ∈ s.duties) : t.Gated := by
  have haw {x d : Nat} := awaits_congr (x := x) (d := d) hg hl
  have keep {w : Work D} (hw : w ∈ s.duties) (hn : ∀ x, w ≠ .dispatch x) : w ∈ t.duties := by
    rw [hd, List.mem_append] at hw
    apply hw.resolve_left
    intro hw
    obtain ⟨x, rfl, _⟩ := hdone w hw
    exact hn x rfl
  have sub {w : Work D} (hw : w ∈ t.duties) : w ∈ s.duties := hd ▸ List.mem_append_right _ hw
  have hpl {g d : Nat} : t.Pledged g d ↔ s.Pledged g d := by
    unfold Pledged Moored
    rw [hm]
    exact or_congr_left ⟨sub, fun hw => keep hw (by simp)⟩
  have hlaunch (x : Nat) : s.launches x = (l.filterMap Work.launches?).count x + t.launches x := by
    unfold launches
    rw [hd, hgates, List.filterMap_append, List.count_append]
    omega
  exact {
    pledged := by
      intro g
      have hn : l.filterMap Work.gate? = [] := List.filterMap_eq_nil_iff.mpr fun w hw => by
        obtain ⟨x, rfl, _⟩ := hdone w hw
        rfl
      have := h.pledged g
      simp only [pledges, remaining, hd, List.filterMap_append, hn, List.nil_append] at this ⊢
      rw [hm, hgates]
      exact this
    once := by
      intro x
      have := h.once x
      rw [hlaunch] at this
      omega
    queued := by
      intro x hq
      have := h.queued (x := x) ?_
      · rw [hlaunch, List.count_eq_zero.mpr ?_] at this
        · omega
        · intro hx
          obtain ⟨w, hw, hwx⟩ := List.mem_filterMap.mp hx
          obtain ⟨y, rfl, hy⟩ := hdone w hw
          obtain rfl := Option.some.inj hwx
          obtain ⟨e, he, hq⟩ := hq
          exact hy e he hq
      · obtain ⟨f, hf, hq⟩ := hq
        have hx : x < s.entries.length := hl ▸ (List.getElem?_eq_some_iff.mp hf).1
        obtain ⟨b, hb, hab⟩ := hg.entry (List.getElem?_eq_getElem hx)
        obtain rfl := Option.some.inj (hf.symm.trans hb)
        exact ⟨_, List.getElem?_eq_getElem hx, hab.queued hq⟩
    awaiting := by
      intro g d hp
      obtain ⟨gate, hgate, ha⟩ := h.awaiting (hpl.mp hp)
      exact ⟨gate, hgates ▸ hgate, haw.mpr ha⟩
    chained := fun hc hm => haw.mpr (h.chained (sub hc) hm)
    held := by
      intro x d ha hvd
      obtain ⟨ds, hc, hd⟩ | ⟨g, gate, hgate, hx, hp⟩ := h.held (haw.mp ha) (hv _ ▸ hvd)
      · exact .inl ⟨ds, keep hc (by simp), hd⟩
      · exact .inr ⟨g, gate, hgates ▸ hgate, hx, hpl.mpr hp⟩
    clear := by
      intro x d hx ha
      rw [hv]
      obtain hx | hx := hs hx
      · exact h.clear hx (haw.mp ha)
      · by_cases hvd : s.vacated d = true
        · exact hvd
        · exact absurd (h.held (haw.mp ha) (by simpa using hvd)) (h.not_held hx)
    gate_lt := fun hm => hl ▸ h.gate_lt (hgates ▸ hm)
    launch_lt := fun hm hw => hl ▸ h.launch_lt (sub hm) hw }

/-- Changes that leave slots as others see them, gates and the work on gates as they are. -/
theorem Gated.frame (h : s.Gated) (hg : s.Grows t)
    (hb : t.entries.map Entry.berth = s.entries.map Entry.berth) (hgates : t.gates = s.gates)
    (hd : t.duties = s.duties) : t.Gated := by
  have at_berth (m : Machine D) (i : Nat) (p : Berth D → Prop) :
      (m.At i fun e => p e.berth) ↔ ∃ b, (m.entries.map Entry.berth)[i]? = some b ∧ p b := by
    simp only [At, List.getElem?_map]
    cases m.entries[i]? <;> simp
  refine h.change (l := []) hg (by simpa using congrArg List.length hb) ?_ hgates hd.symm
    (List.forall_mem_nil _) (fun i => ?_) fun {i} hs => .inl ?_
  · have := congrArg (List.map fun b : Berth D =>
      b.vacancy.continuations.filterMap Continuation.gate?) hb
    rwa [List.map_map, List.map_map] at this
  · rw [Bool.eq_iff_iff, vacated_eq_true_iff, vacated_eq_true_iff]
    have (m : Machine D) := at_berth m i (·.vacancy.isSettled = true)
    exact (this t).trans (hb ▸ (this s).symm)
  · have key (m : Machine D) := at_berth m i (·.spawned = true)
    have := (key t).trans (hb ▸ (key s).symm)
    simp only [Entry.berth, decide_eq_true_eq] at this
    exact this.mp hs

theorem Touches.berths (h : s.Touches t) :
    t.entries.map Entry.berth = s.entries.map Entry.berth := by
  apply List.ext_getElem?
  intro i
  simp only [List.getElem?_map]
  cases he : s.entries[i]? with
  | none =>
      rw [List.getElem?_eq_none_iff, ← h.length, ← List.getElem?_eq_none_iff] at he
      rw [he]
  | some e =>
      obtain ⟨f, hf, hef⟩ := h.entry he
      rw [hf, Option.map_some, Option.map_some, hef.berth]

/-- An entry was set of which something is as before. -/
theorem map_set_of_eq {α : Type} {p : Entry D → α} (he : s.entries[i]? = some e)
    (hf : p f = p e) : (s.entries.set i f).map p = s.entries.map p := by
  apply List.ext_getElem?
  intro j
  rw [List.getElem?_map, List.getElem?_map]
  by_cases hij : i = j
  · subst hij
    rw [getElem?_set_of_some he, he, Option.map_some, hf,
      Option.map_some]
  · rw [List.getElem?_set_ne hij]

theorem duties_of_work (h : s.work = l ++ r) :
    s.duties = l.filter Work.isDuty ++ r.filter Work.isDuty := by
  rw [duties, h, List.filter_append]

theorem filter_isDuty_of_isIdle (h : ∀ w ∈ l, w.isIdle) : l.filter Work.isDuty = [] :=
  List.filter_eq_nil_iff.mpr fun w hw => by simp [Work.isDuty_of_isIdle (h w hw)]

theorem isDuty_of_ends? (h : w.ends? = some i) : w.isDuty = false := by
  cases w with
  | park | finish => rfl
  | _ => cases h

/-- Work was done and left that is not work on gates. -/
theorem duties_congr {a b : List (Work D)} (hs : s.work = a ++ r) (ht : t.work = b ++ r)
    (ha : a.filter Work.isDuty = []) (hb : b.filter Work.isDuty = []) : t.duties = s.duties := by
  rw [duties_of_work hs, duties_of_work ht, ha, hb]

theorem Cancels.duties {a b : List (Work D)} (h : Cancels i e a b) :
    a.filter Work.isDuty = [] ∧ b.filter Work.isDuty = [] := by
  cases h with
  | client ha hb => exact ⟨filter_isDuty_of_isIdle ha, filter_isDuty_of_isIdle hb⟩
  | supersede hn => exact ⟨rfl, (List.filter_cons_of_neg (by simp [Work.isDuty])).trans
      (filter_isDuty_of_isIdle hn)⟩
  | _ => exact ⟨rfl, rfl⟩

/-- A slot leaves the queue, or its launch comes too late. -/
theorem Gated.leave {items : List (Work D)} (h : s.Gated) (hg : s.Grows t)
    (hl : t.entries.length = s.entries.length) (hm : t.moorings = s.moorings)
    (hgates : t.gates = s.gates) (hsw : s.work = w :: r) (htw : t.work = items ++ r)
    (hi : items.filter Work.isDuty = []) (hw : w.isDuty = false ∨ w = .dispatch x)
    (hq : ∀ e, t.entries[x]? = some e → e.stage ≠ .queued)
    (hv : ∀ i, t.vacated i = s.vacated i)
    (hs : ∀ {i : Nat}, t.At i (·.task ≠ .unspawned) →
      s.At i (·.task ≠ .unspawned) ∨ (i = x ∧ w = .dispatch x)) : t.Gated := by
  have hd : s.duties = [w].filter Work.isDuty ++ t.duties := by
    rw [duties_of_work (l := [w]) hsw, duties_of_work htw, hi, List.nil_append]
  refine h.change hg hl hm hgates hd (fun v hv => ?_) hv fun hi => (hs hi).imp_right ?_
  · obtain ⟨hv, hduty⟩ := List.mem_filter.mp hv
    obtain rfl := List.mem_singleton.mp hv
    exact ⟨x, hw.resolve_left (by simp [hduty]), hq⟩
  · rintro ⟨rfl, rfl⟩
    rw [hd]
    exact List.mem_append_left _ (List.mem_singleton.mpr rfl)

end Machine

end RequestScheduler
