import RequestScheduler.Proofs.Change

/-!
# The rules of a machine

Work items and moves are many, but what they do to slots, gates and outcomes is little. Every step
is a sequence of the elementary changes listed here (`Machine.Rule`), each of which says what it
takes off the list of work and what it puts there. An invariant that every rule preserves holds in
every state of every run.

The rules leave out what no invariant needs: permits, the agenda of the runtime, counters, the
register, and all events but those with which callbacks begin.
-/

namespace RequestScheduler

variable {D : Type}

/-- The request whose callback begins with an event. -/
def Event.start? : Event D → Option Nat
  | .start id _ => some id
  | _ => none

namespace Work

/-- Work that leaves slots and outcomes as they are. What is performed may submit and cancel. -/
def isIdle : Work D → Bool
  | .perform _ | .note _ | .run (.react ..) | .cancelEach [] _ _ => true
  | .reportTally | .handOver _ => true
  | .emit e => e.start?.isNone
  | _ => false

/-- The request whose callback stops performing with this work. -/
def ends? : Work D → Option Nat
  | .park id _ | .finish id _ => some id
  | _ => none

end Work

namespace Machine

/-- The requests whose callbacks began, the latest first. -/
def starts (s : Machine D) : List Nat := s.events.filterMap Event.start?

/-- Every entry was touched at most, and nothing else that the rules speak of has changed. -/
structure Touches (s t : Machine D) : Prop where
  length : t.entries.length = s.entries.length
  entry : ∀ {i : Nat} {e : Entry D}, s.entries[i]? = some e →
    ∃ f, t.entries[i]? = some f ∧ e.Touch f
  gates : t.gates = s.gates
  admission : t.admission = s.admission
  live : t.live = s.live
  starts : t.starts = s.starts

/-- Who requests the cancellation of a request: what it takes off the list of work, and what it
does after the settlement. -/
inductive Cancels (i : Nat) (e : Entry D) : List (Work D) → List (Work D) → Prop
  | client {done after : List (Work D)} (hd : ∀ w ∈ done, w.isIdle) (ha : ∀ w ∈ after, w.isIdle) :
      Cancels i e done after
  | slot : Cancels i e [.cancelSlot i] [.skip i]
  | supersede {writer : Nat} {notes : List (Work D)} (hn : ∀ w ∈ notes, w.isIdle) :
      Cancels i e [.supersede i writer] (.skip i :: notes)
  | each {ids : List Nat} {total count next : Nat} :
      Cancels i e [.cancelEach (i :: ids) total count] [.skip i, .cancelEach ids total next]
  /-- The task of the request gives up before its callback has begun. -/
  | stop (ht : e.task ≠ .unspawned) (hb : e.callback.hasBegun = false) :
      Cancels i e [] [.endTask i]

/-- Work that does nothing, because what it is for was done already. -/
def IsDone (s : Machine D) : Work D → Prop
  | .skip i | .dispatch i => ∀ e, s.entries[i]? = some e → e.stage ≠ .queued
  | .settle i _ => s.isPending i = false
  | .openVacancy i | .vacate i => s.vacated i = true
  | .release g => s.gates[g]? = none
  | _ => False

/-- The elementary changes of a machine. -/
inductive Rule : Machine D → Machine D → Prop
  /-- Requests, tasks, callbacks and futures go on. -/
  | touch {s t : Machine D} {done items rest : List (Work D)} (h : Touches s t)
      (hs : s.work = done ++ rest) (ht : t.work = items ++ rest)
      (hd : ∀ w ∈ done, w.isIdle) (hi : ∀ w ∈ items, w.isIdle) : Rule s t
  /-- The record forgets the requests that have vacated. -/
  | prune {s : Machine D} : Rule s { s with admission := s.admission.prune s.vacated }
  | pass {s : Machine D} {w : Work D} {rest : List (Work D)} (h : s.work = w :: rest)
      (hw : s.IsDone w) : Rule s { s with work := rest }
  | publish {s : Machine D} {i : Nat} {o : Outcome (Value D)} {e : Entry D} {rest : List (Work D)}
      (h : s.work = .settle i o :: rest) (he : s.entries[i]? = some e) :
      Rule s { s with
        entries := s.entries.set i { e with request := e.request.publish o }
        work := e.request.cell.continuations.map .run ++ rest }
  /-- The flag of a request that has begun is set, and nothing else. -/
  | flag {s : Machine D} {i : Nat} {e : Entry D} (he : s.entries[i]? = some e)
      (hb : e.callback.hasBegun = true) :
      Rule s { s with entries := s.entries.set i { e with request := e.request.trip } }
  | cancel {s : Machine D} {i : Nat} {e : Entry D} {done after rest : List (Work D)}
      (h : s.work = done ++ rest) (he : s.entries[i]? = some e) (hc : Cancels i e done after) :
      Rule s { s with
        entries := s.entries.set i { e with request := e.request.trip }
        work := .settle i (.error .cancelled) :: after ++ rest }
  /-- The cancellation of all outstanding requests is set out. -/
  | collect {s : Machine D} {done after rest : List (Work D)} {total : Nat}
      (h : s.work = done ++ rest) (hd : ∀ w ∈ done, w.isIdle) (ha : ∀ w ∈ after, w.isIdle) :
      Rule s { s with
        work := .cancelEach (s.admission.writes ++ s.admission.reads) total 0 :: after ++ rest }
  /-- Admission is closed, and the cancellation of all outstanding requests is set out. -/
  | close {s : Machine D} :
      Rule s { s with
        admission := { s.admission with
          closed := true, currentWrite := none, reads := [], writes := [] }
        work := (s.admission.writes ++ s.admission.reads).map .cancelSlot ++ s.work }
  | skip {s : Machine D} {i : Nat} {e : Entry D} {w : Work D} {rest : List (Work D)}
      (h : s.work = w :: rest) (hw : w = .skip i ∨ w = .dispatch i) (he : s.entries[i]? = some e)
      (hq : e.stage = .queued) (ht : e.request.tripped = true) :
      Rule s { s with
        entries := s.entries.set i { e with stage := .vacated, callback := .dropped }
        work := .openVacancy i :: rest }
  | vacate {s : Machine D} {i : Nat} {e : Entry D} {w : Work D} {notes rest : List (Work D)}
      (h : s.work = w :: rest) (he : s.entries[i]? = some e) (hv : e.isVacated = false)
      (hw : w = .openVacancy i ∧ e.stage = .vacated ∨
        w = .vacate i ∧ e.task = .ended ∧ e.callback.isWaiting = false)
      (hn : ∀ w ∈ notes, w.isIdle) :
      Rule s { s with
        entries := s.entries.set i { e with stage := .vacated, vacancy := e.vacancy.settle () }
        work := e.vacancy.continuations.map .run ++ notes ++ rest }
  | spawn {s : Machine D} {i : Nat} {e : Entry D} {task : Task} {items rest : List (Work D)}
      (h : s.work = .dispatch i :: rest) (he : s.entries[i]? = some e)
      (hq : e.stage = .queued) (ht : e.request.tripped = false)
      (hl : s.live = true ∧ task = .fresh ∧ items = [] ∨
        s.live = false ∧ task = .ended ∧ items = [.endTask i]) :
      Rule s { s with
        entries := s.entries.set i { e with stage := .dispatched, task }
        work := items ++ rest }
  | chain {s : Machine D} {x : Nat} {dependencies : List Nat} {rest : List (Work D)}
      (h : s.work = .chain x dependencies :: rest) :
      Rule s { s with
        gates := s.gates ++ [{ slot := x, remaining := dependencies.length + 1 }]
        work := dependencies.map (Work.await s.gates.length) ++
          .release s.gates.length :: rest }
  /-- A gate waits for a slot to vacate. -/
  | enrol {s : Machine D} {g d : Nat} {e : Entry D} {rest : List (Work D)}
      (h : s.work = .await g d :: rest) (he : s.entries[d]? = some e) (hv : e.isVacated = false) :
      Rule s { s with
        entries := s.entries.set d { e with vacancy := e.vacancy.register (.release g) }
        work := rest }
  /-- A gate is to be released now. -/
  | forward {s : Machine D} {g : Nat} {w : Work D} {rest : List (Work D)} (h : s.work = w :: rest)
      (hw : (∃ d, w = .await g d ∧ s.vacated d = true) ∨ w = .run (.release g)) :
      Rule s { s with work := .release g :: rest }
  | count {s : Machine D} {g : Nat} {gate : Gate} {rest : List (Work D)}
      (h : s.work = .release g :: rest) (hg : s.gates[g]? = some gate) :
      Rule s { s with
        gates := s.gates.set g { gate with remaining := gate.remaining - 1 }
        work := if gate.remaining = 1 then .dispatch gate.slot :: rest else rest }
  | endTask {s : Machine D} {i : Nat} {e : Entry D} {rest : List (Work D)}
      (h : s.work = .endTask i :: rest) (he : s.entries[i]? = some e)
      (ht : e.task ≠ .unspawned) :
      Rule s { s with
        entries := s.entries.set i { e with task := .ended, callback := e.callback.close }
        work := .settle i (.error .cancelled) :: .vacate i :: rest }
  /-- A task has heard its callback and is to publish the outcome. -/
  | hear {s : Machine D} {i : Nat} {o : Outcome (Value D)} {e : Entry D}
      (he : s.entries[i]? = some e) (hc : e.callback = .spent) (ht : e.task ≠ .unspawned) :
      Rule s { s with work := .settle i o :: .endTask i :: s.work }
  | begin {s : Machine D} {i : Nat} {b : Bool} {e : Entry D} {body : Body D} (h : s.work = [])
      (he : s.entries[i]? = some e) (hc : e.callback = .offered body) :
      Rule s { s with
        entries := s.entries.set i { e with callback := .running }
        events := .start i b :: s.events }
  /-- A callback that performs has this to do until it parks or returns. -/
  | lead {s : Machine D} {i : Nat} {e : Entry D} {w : Work D} {items : List (Work D)}
      (h : s.work = []) (he : s.entries[i]? = some e) (hc : e.callback = .running)
      (hi : ∀ w ∈ items, w.isIdle) (hw : w.ends? = some i) :
      Rule s { s with work := items ++ [w] }
  | yield {s : Machine D} {i : Nat} {e f : Entry D} {w : Work D} {rest : List (Work D)}
      (h : s.work = w :: rest) (hw : w.ends? = some i) (he : s.entries[i]? = some e)
      (hc : e.callback = .running) (hf : e.Yield f) :
      Rule s { s with entries := s.entries.set i f, work := rest }
  | refuse {s : Machine D} (kind : Kind) {done after rest : List (Work D)}
      (h : s.work = done ++ rest) (hd : ∀ w ∈ done, w.isIdle) (ha : ∀ w ∈ after, w.isIdle)
      (hc : s.admission.closed = true) :
      Rule s { s with
        entries := s.entries ++ [.refused kind]
        admission := s.admission.reject
        work := .settle s.entries.length (.error .shutdownRejected) :: after ++ rest }
  /-- A read is admitted: it waits for the current write, if there is one. -/
  | read {s : Machine D} (seq : UInt64) (body : Body D) (a : Admission)
      {done after rest : List (Work D)} (h : s.work = done ++ rest) (hd : ∀ w ∈ done, w.isIdle)
      (ha : ∀ w ∈ after, w.isIdle) (hc : s.admission.closed = false) (hac : a.closed = false)
      (hr : a.reads = s.admission.reads ++ [s.entries.length])
      (hw : a.writes = s.admission.writes) (hcw : a.currentWrite = s.admission.currentWrite) :
      Rule s { s with
        entries := s.entries ++ [.queued .read seq (.callback body)]
        admission := a
        work := (match s.admission.currentWrite with
          | none => .dispatch s.entries.length
          | some write => .chain s.entries.length [write]) :: after ++ rest }
  /-- A write is admitted: it supersedes the reads and the current write, and waits for the
  reads. -/
  | write {s : Machine D} (seq : UInt64) (body : Body D) (a : Admission)
      {done after rest : List (Work D)} (h : s.work = done ++ rest) (hd : ∀ w ∈ done, w.isIdle)
      (ha : ∀ w ∈ after, w.isIdle) (hc : s.admission.closed = false) (hac : a.closed = false)
      (hr : a.reads = s.admission.reads)
      (hw : a.writes = s.admission.writes ++ [s.entries.length])
      (hcw : a.currentWrite = some s.entries.length) :
      Rule s { s with
        entries := s.entries ++ [.queued .write seq (.callback body)]
        admission := a
        work := (s.admission.reads ++ s.admission.currentWrite.toList).map
            (Work.supersede · s.entries.length) ++
          .chain s.entries.length s.admission.reads :: after ++ rest }
  | lose {s : Machine D} {tasks : List Nat} (h : s.work = [])
      (ht : ∀ i ∈ tasks, ∃ e, s.entries[i]? = some e ∧ e.task ≠ .unspawned) :
      Rule s { s with live := false, work := tasks.map .endTask }

/-- Any number of elementary changes. -/
abbrev Rules : Machine D → Machine D → Prop := Relation.ReflTransGen Rule

/-- Every entry is coherent. -/
def Coherent (s : Machine D) : Prop :=
  ∀ {i : Nat} {e : Entry D}, s.entries[i]? = some e → e.Coherent

/-- Every entry stays where it is and grows, and a runtime that is gone stays away. -/
structure Grows (s t : Machine D) : Prop where
  entry : ∀ {i : Nat} {e : Entry D}, s.entries[i]? = some e →
    ∃ f, t.entries[i]? = some f ∧ e.Grows f
  live : t.live = true → s.live = true

variable {s t u : Machine D} {i : Nat} {e f : Entry D}

theorem Grows.refl (s : Machine D) : s.Grows s := ⟨fun h => ⟨_, h, .refl _⟩, id⟩

theorem Grows.trans (h₁ : s.Grows t) (h₂ : t.Grows u) : s.Grows u where
  entry h := by
    obtain ⟨f, hf, hef⟩ := h₁.entry h
    obtain ⟨g, hg, hfg⟩ := h₂.entry hf
    exact ⟨g, hg, hef.trans hfg⟩
  live h := h₁.live (h₂.live h)

/-- One entry grows. -/
theorem Grows.set (he : s.entries[i]? = some e) (hf : e.Grows f)
    (ht : t.entries = s.entries.set i f) (hl : t.live = s.live) : s.Grows t where
  entry {j a} ha := by
    rw [ht, List.getElem?_set]
    by_cases hj : i = j
    · subst hj
      obtain rfl := Option.some.inj (he.symm.trans ha)
      have := (List.getElem?_eq_some_iff.mp he).1
      exact ⟨f, by simp [this], hf⟩
    · exact ⟨a, by simp [hj, ha], .refl a⟩
  live h := hl ▸ h

/-- New entries come at the end. -/
theorem Grows.append {l : List (Entry D)} (ht : t.entries = s.entries ++ l)
    (hl : t.live = s.live) : s.Grows t where
  entry ha := ⟨_, ht ▸ getElem?_append_of_some ha, .refl _⟩
  live h := hl ▸ h

/-- The entries stay as they are. -/
theorem Grows.same (ht : t.entries = s.entries) (hl : t.live = true → s.live = true) :
    s.Grows t :=
  ⟨fun h => ⟨_, by rw [ht, h], .refl _⟩, hl⟩

theorem Touches.grows (h : Touches s t) : s.Grows t where
  entry he := by
    obtain ⟨f, hf, hef⟩ := h.entry he
    exact ⟨f, hf, hef.grows⟩
  live hl := h.live ▸ hl

theorem Rule.grows (h : Rule s t) (hc : s.Coherent) : s.Grows t := by
  cases h with
  | touch h => exact h.grows
  | prune | pass | collect | close | chain | forward | count | hear | lead =>
      exact .same rfl id
  | lose => exact .same rfl (by simp)
  | refuse | read | write => exact .append rfl rfl
  | publish _ he => exact .set he (.publish _ _) rfl rfl
  | flag he | cancel _ he => exact .set he (.trip _) rfl rfl
  | skip _ _ he hq ht => exact .set he (Entry.Shift.grows (.skip hq ht) (hc he)) rfl rfl
  | vacate _ he _ hw =>
      refine .set he ?_ rfl rfl
      obtain ⟨_, hv⟩ | ⟨_, ht, hb⟩ := hw
      · have := Entry.Shift.grows (.openVacancy hv) (hc he)
        rwa [← hv]
      · exact Entry.Shift.grows (.vacate ht hb) (hc he)
  | spawn _ he hq ht hl =>
      refine .set he (Entry.Shift.grows (.dispatch _ hq ht ?_) (hc he)) rfl rfl
      exact hl.imp (·.2.1) (·.2.1)
  | enrol _ he => exact .set he (Entry.Shift.grows (.enrol _) (hc he)) rfl rfl
  | endTask _ he ht => exact .set he (Entry.Touch.grows (.endTask ht)) rfl rfl
  | begin _ he hb => exact .set he (.begin hb) rfl rfl
  | yield _ _ he hr hf => exact .set he (hf.grows hr) rfl rfl

/-- A callback begins in a machine at rest, or no callback begins. -/
theorem Rule.begun (h : Rule s t) (hc : s.Coherent) :
    (t.starts = s.starts ∧ ∀ {i : Nat} {e f : Entry D}, s.entries[i]? = some e →
      t.entries[i]? = some f → f.callback.hasBegun = e.callback.hasBegun) ∨
    ∃ (i : Nat) (b : Bool) (e : Entry D) (body : Body D), s.work = [] ∧ s.entries[i]? = some e ∧
      e.callback = .offered body ∧
      t = { s with
        entries := s.entries.set i { e with callback := .running }
        events := .start i b :: s.events } := by
  have one {i : Nat} {e f : Entry D} {r : Machine D} (he : s.entries[i]? = some e)
      (hr : r.entries = s.entries.set i f) (hf : f.callback.hasBegun = e.callback.hasBegun) :
      ∀ {j : Nat} {a b : Entry D}, s.entries[j]? = some a → r.entries[j]? = some b →
        b.callback.hasBegun = a.callback.hasBegun := by
    intro j a b ha hb
    rw [hr] at hb
    obtain ⟨rfl, rfl⟩ | ⟨_, hb⟩ := getElem?_set_cases hb
    · obtain rfl := Option.some.inj (he.symm.trans ha)
      exact hf
    · obtain rfl := Option.some.inj (ha.symm.trans hb)
      rfl
  have same {r : Machine D} {l : List (Entry D)} (hr : r.entries = s.entries ++ l) :
      ∀ {j : Nat} {a b : Entry D}, s.entries[j]? = some a → r.entries[j]? = some b →
        b.callback.hasBegun = a.callback.hasBegun := by
    intro j a b ha hb
    rw [hr, getElem?_append_of_some ha] at hb
    exact Option.some.inj hb ▸ rfl
  cases h with
  | touch h =>
      refine .inl ⟨h.starts, fun he hf => ?_⟩
      obtain ⟨g, hg, heg⟩ := h.entry he
      obtain rfl := Option.some.inj (hf.symm.trans hg)
      exact heg.hasBegun
  | prune | pass | collect | close | chain | forward | count | hear | lead | lose =>
      exact .inl ⟨rfl, same (List.append_nil _).symm⟩
  | refuse | read | write => exact .inl ⟨rfl, same rfl⟩
  | publish _ he | flag he | cancel _ he | enrol _ he => exact .inl ⟨rfl, one he rfl (by rfl)⟩
  | skip _ _ he hq ht =>
      exact .inl ⟨rfl, one he rfl (Entry.Shift.hasBegun (.skip hq ht) (hc he))⟩
  | vacate _ he | spawn _ he => exact .inl ⟨rfl, one he rfl (by rfl)⟩
  | endTask _ he ht => exact .inl ⟨rfl, one he rfl (Entry.Touch.hasBegun (.endTask ht))⟩
  | begin hw he hb => exact .inr ⟨_, _, _, _, hw, he, hb, rfl⟩
  | yield _ _ he hr hf =>
      exact .inl ⟨rfl, one he rfl (hf.hasBegun.trans (by simp [hr, Callback.hasBegun]))⟩

/-- A rule admits or refuses one request at most, and its entry comes last. -/
theorem Rule.length (h : Rule s t) : t.entries.length = s.entries.length ∨
    ∃ f, t.entries = s.entries ++ [f] ∧
      ((∃ kind, f = .refused kind) ∨ ∃ kind seq body, f = .queued kind seq (.callback body)) := by
  cases h with
  | touch h => exact .inl h.length
  | refuse => exact .inr ⟨_, rfl, .inl ⟨_, rfl⟩⟩
  | read | write => exact .inr ⟨_, rfl, .inr ⟨_, _, _, rfl⟩⟩
  | _ => exact .inl (by simp)

/-- A request that a rule submits has not begun. -/
theorem Rule.hasBegun_new (h : Rule s t) (hn : s.entries[i]? = none)
    (hf : t.entries[i]? = some f) : f.callback.hasBegun = false := by
  obtain hl | ⟨g, ht, hg⟩ := h.length
  · have hi := (List.getElem?_eq_some_iff.mp hf).1
    rw [List.getElem?_eq_none_iff] at hn
    omega
  · obtain ⟨_, rfl⟩ | hf := getElem?_concat_cases (ht ▸ hf)
    · obtain ⟨_, rfl⟩ | ⟨_, _, _, rfl⟩ := hg <;> rfl
    · cases hn.symm.trans hf

/-- The slot of a gate stays as it is. -/
theorem Rule.gate {g : Nat} {gate : Gate} (h : Rule s t) (hg : s.gates[g]? = some gate) :
    ∃ b, t.gates[g]? = some b ∧ b.slot = gate.slot := by
  cases h with
  | touch h => exact ⟨gate, h.gates ▸ hg, rfl⟩
  | chain => exact ⟨gate, getElem?_append_of_some hg, rfl⟩
  | @count k a _ _ hk =>
      by_cases hkg : k = g
      · subst hkg
        obtain rfl := Option.some.inj (hk.symm.trans hg)
        exact ⟨_, getElem?_set_of_some hg, rfl⟩
      · exact ⟨gate, by simp only [List.getElem?_set_ne hkg, hg], rfl⟩
  | _ => exact ⟨gate, hg, rfl⟩

end Machine

end RequestScheduler
