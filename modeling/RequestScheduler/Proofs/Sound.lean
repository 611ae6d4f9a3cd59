import RequestScheduler.Proofs.Rule

/-!
# Sound machines

A machine is sound when its entries are coherent, when a request has settled or is about to settle
by the time its slot vacates, and when every work item fits what it was left for.

Two parts of soundness hold only as long as the runtime is there: a task that ends has been told
what its callback did, and a callback whose slot has vacated is over. A lost runtime drops tasks
whose callbacks go on performing.
-/

namespace RequestScheduler

variable {D : Type}

namespace Machine

/-- The request is there, and its entry satisfies `p`. -/
def At (s : Machine D) (i : Nat) (p : Entry D → Prop) : Prop := ∃ e, s.entries[i]? = some e ∧ p e

/-- The request has settled, or its settlement is the next that is done to it. -/
def Secured (s : Machine D) (i : Nat) : Prop :=
  s.At i (·.request.isSettled = true) ∨ ∃ o, Work.settle i o ∈ s.work

end Machine

/-- What holds of the entry of request `i` at any time. -/
structure Entry.Sound (s : Machine D) (i : Nat) (e : Entry D) : Prop where
  coherent : e.Coherent
  vacated : e.isVacated = true → s.Secured i
  tripped : e.request.tripped = true → s.Secured i ∨ e.callback.hasBegun = true
  refused : e.stage = .refused → s.Secured i
  isOver : s.live = true → e.stage = .vacated → e.callback.isOver = true

/-- What holds of a work item as long as it is to be done. -/
def Work.Sound (s : Machine D) : Work D → Prop
  | .emit e => e.start? = none
  | .run k => ∀ e, k ≠ .announce e
  | .settle i o =>
    s.At i fun e => o = .error .cancelled ∨ e.callback = .spent ∨ e.stage = .refused
  | .cancelSlot i => s.At i (·.stage ≠ .refused)
  | .supersede v w => s.At v (·.stage ≠ .refused) ∧ s.At w fun _ => True
  | .cancelEach ids _ _ => ∀ i ∈ ids, s.At i (·.stage ≠ .refused)
  | .skip i => s.At i (fun e => e.stage ≠ .refused ∧ e.request.tripped = true) ∧ s.Secured i
  | .openVacancy i => s.At i (·.stage = .vacated) ∧ s.Secured i
  | .vacate i =>
    s.At i (fun e => e.task = .ended ∧ e.callback.isWaiting = false ∧
      (s.live = true → e.callback.isOver = true)) ∧ s.Secured i
  | .endTask i =>
    s.At i fun e => e.task ≠ .unspawned ∧
      (s.live = true → e.callback.hasBegun = true → e.callback = .spent)
  | .await _ d => s.At d fun _ => True
  | .chain _ dependencies => ∀ d ∈ dependencies, s.At d fun _ => True
  | _ => True

namespace Machine

/-- A machine whose parts fit each other. -/
structure Sound (s : Machine D) : Prop where
  entry : ∀ {i : Nat} {e : Entry D}, s.entries[i]? = some e → e.Sound s i
  work : ∀ {w : Work D}, w ∈ s.work → w.Sound s
  /-- The record knows admitted requests only. -/
  listed : ∀ {i : Nat}, i ∈ s.admission.reads ∨ i ∈ s.admission.writes ∨
    s.admission.currentWrite = some i → s.At i (·.stage ≠ .refused)
  performing : ∀ {w : Work D} {i : Nat}, w ∈ s.work → w.ends? = some i →
    s.At i (·.callback = .running)
  /-- One callback performs at a time. -/
  single : (s.work.filter (·.ends?.isSome)).length ≤ 1
  starts : ∀ i, s.starts.count i = if s.hasBegun i then 1 else 0

variable {s t : Machine D} {i j : Nat} {e f : Entry D} {w : Work D} {p q : Entry D → Prop}

theorem At.mono (h : s.At i p) (hg : s.Grows t) (hp : ∀ {e f : Entry D}, e.Grows f → p e → q f) :
    t.At i q := by
  obtain ⟨e, he, hpe⟩ := h
  obtain ⟨f, hf, hef⟩ := hg.entry he
  exact ⟨f, hf, hp hef hpe⟩

/-- Whoever was admitted stays so. -/
theorem At.admitted (h : s.At i (·.stage ≠ .refused)) (hg : s.Grows t) :
    t.At i (·.stage ≠ .refused) :=
  h.mono hg fun he => mt he.refused.mp

theorem At.imp (h : s.At i p) (hp : ∀ e, p e → q e) : s.At i q :=
  Exists.imp (fun e he => he.imp_right (hp e)) h

theorem At.congr (h : t.entries = s.entries) : t.At i p ↔ s.At i p := by
  rw [At, h, At]

/-- Of a request that is there, `p` holds. -/
theorem At.of_entry (h : s.At i p) (he : s.entries[i]? = some e) : p e := by
  obtain ⟨a, ha, hp⟩ := h
  exact Option.some.inj (ha.symm.trans he) ▸ hp

/-- The entry that was set. -/
theorem At.of_set (he : s.entries[i]? = some e) (ht : t.entries = s.entries.set i f) (hp : p f) :
    t.At i p :=
  ⟨f, by rw [ht, getElem?_set_of_some he], hp⟩

/-- The entry that was added. -/
theorem At.of_append (ht : t.entries = s.entries ++ [f]) (hp : p f) :
    t.At s.entries.length p :=
  ⟨f, by rw [ht, List.getElem?_concat_length], hp⟩

theorem mem_aliveTasks : i ∈ s.aliveTasks ↔ s.At i (·.isAlive = true) := by
  simp only [aliveTasks, List.mem_filter, List.mem_range, Option.getD_eq_iff,
    Option.map_eq_some_iff, Bool.false_eq_true, and_false, or_false]
  refine and_iff_right_of_imp ?_
  rintro ⟨e, he, _⟩
  exact (List.getElem?_eq_some_iff.mp he).1

theorem Sound.isCoherent (h : s.Sound) : s.Coherent := fun he => (h.entry he).coherent

theorem vacated_eq_true_iff : s.vacated i = true ↔ s.At i (·.isVacated = true) := by
  unfold vacated At
  cases s.entries[i]? <;> simp

theorem hasBegun_eq_true_iff : s.hasBegun i = true ↔ s.At i (·.callback.hasBegun = true) := by
  unfold hasBegun At
  cases s.entries[i]? <;> simp

end Machine

open Machine

variable {s t : Machine D} {i j : Nat} {e f : Entry D} {w : Work D}

theorem Entry.Sound.mono (h : e.Sound s i) (hs : s.Secured i → t.Secured i)
    (hl : t.live = true → s.live = true) : e.Sound t i where
  coherent := h.coherent
  vacated hv := hs (h.vacated hv)
  tripped ht := (h.tripped ht).imp_left hs
  refused hr := hs (h.refused hr)
  isOver hlive := h.isOver (hl hlive)

/-- An entry whose slot did not change and whose callback went on. -/
theorem Entry.Sound.berth (h : e.Sound s i) (hb : f.berth = e.berth) (hc : f.Coherent)
    (ht : f.request.tripped = true → s.Secured i ∨ f.callback.hasBegun = true)
    (ho : e.callback.isOver = true → f.callback.isOver = true) : f.Sound s i := by
  obtain ⟨_, hs, _, hv⟩ := Berth.mk.inj hb
  exact {
    coherent := hc
    vacated := fun hf => h.vacated (by simpa [isVacated, hv] using hf)
    tripped := ht
    refused := fun hf => h.refused (hs ▸ hf)
    isOver := fun hl hf => ho (h.isOver hl (hs ▸ hf)) }

theorem Entry.Sound.touch (h : e.Sound s i) (hf : e.Touch f) : f.Sound s i :=
  h.berth hf.berth (hf.coherent h.coherent)
    (fun ht => by
      rw [hf.hasBegun]
      exact h.tripped (hf.tripped ▸ ht))
    hf.grows.isOver

theorem Work.sound_of_isIdle (h : w.isIdle = true) : w.Sound s := by
  cases w with
  | emit e => simpa [isIdle, Work.Sound] using h
  | run k => cases k <;> simp_all [isIdle, Work.Sound]
  | cancelEach ids => cases ids <;> simp_all [isIdle, Work.Sound]
  | perform | note | reportTally | handOver => trivial
  | _ => simp [isIdle] at h

/-- A work item stays sound while no callback begins. -/
theorem Work.Sound.mono (h : w.Sound s) (hg : s.Grows t)
    (hs : ∀ {i : Nat}, s.Secured i → t.Secured i)
    (hb : ∀ {i : Nat} {e f : Entry D}, s.entries[i]? = some e → t.entries[i]? = some f →
      f.callback.hasBegun = e.callback.hasBegun) : w.Sound t := by
  have there {i : Nat} (h : s.At i fun _ => True) : t.At i fun _ => True := h.mono hg fun _ => id
  cases w with
  | settle i o =>
      exact h.mono hg fun he => Or.imp_right (Or.imp he.spent he.refused.mpr)
  | cancelSlot i => exact At.admitted h hg
  | supersede v x => exact ⟨At.admitted h.1 hg, there h.2⟩
  | cancelEach ids => exact fun i hi => At.admitted (h i hi) hg
  | skip i =>
      refine ⟨h.1.mono hg ?_, hs h.2⟩
      rintro e f he ⟨hr, ht⟩
      exact ⟨mt he.refused.mp hr, he.tripped ht⟩
  | openVacancy i => exact ⟨h.1.mono hg (·.vacated), hs h.2⟩
  | vacate i =>
      refine ⟨h.1.mono hg ?_, hs h.2⟩
      rintro e f he ⟨ht, hc, ho⟩
      exact ⟨he.ended ht, he.called hc, fun hl => he.isOver (ho (hg.live hl))⟩
  | endTask i =>
      obtain ⟨e, he, ht, hc⟩ := h
      obtain ⟨f, hf, hef⟩ := hg.entry he
      exact ⟨f, hf, hef.spawned ht, fun hl hbf => hef.spent (hc (hg.live hl) (hb he hf ▸ hbf))⟩
  | await g d => exact there h
  | chain x ds => exact fun d hd => there (h d hd)
  | _ => exact h

end RequestScheduler
