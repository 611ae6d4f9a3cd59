import RequestScheduler.Proofs.Edit
import RequestScheduler.Proofs.Order

/-!
# Stations

The station of a request is how far it has come: the stage and the vacancy of its slot, its task and
its callback. Most acts leave all stations as they are (`Act.steady`). The others are few, and each
is for one request: a slot is skipped, vacated or dispatched, a task is polled or ends, a callback
begins, parks or returns. Only the return of a permit reaches a second request.
-/

namespace RequestScheduler

variable {D : Type}

namespace Agenda

@[simp] theorem mem_tasks_addAll {i : Nat} {l : List Nat} {a : Agenda} :
    i ∈ (a.addAll l).tasks ↔ i ∈ a.tasks ∨ i ∈ l := by
  unfold addAll
  induction l generalizing a with
  | nil => simp
  | cons j l ih => simp [ih, or_assoc]

@[simp] theorem mem_tasks_remove {i j : Nat} {a : Agenda} :
    i ∈ (a.remove j).tasks ↔ i ∈ a.tasks ∧ i ≠ j := by
  simp only [remove, tasks, List.mem_append, List.mem_filter, bne_iff_ne, or_and_right]

/-- A task that is picked was ready, and the others stay so. -/
theorem mem_tasks_of_pick? {i j : Nat} {a b : Agenda} (h : a.pick? j = some b) :
    j ∈ a.tasks ∧ (i ∈ a.tasks → i ≠ j → i ∈ b.tasks) := by
  unfold pick? at h
  split at h
  · rename_i hj
    obtain rfl := Option.some.inj h
    refine ⟨List.mem_append_left _ hj, fun hi hij => ?_⟩
    simpa [tasks, List.mem_erase_of_ne hij] using hi
  · split at h
    · rename_i hj
      obtain rfl := Option.some.inj h
      refine ⟨List.mem_append_right _ hj, fun hi hij => ?_⟩
      simpa [tasks, List.mem_erase_of_ne hij] using hi
    · cases h

end Agenda

/-- How far a request has come. -/
structure Station (D : Type) where
  kind : Kind
  stage : Stage
  /-- Whether the slot has been vacated. -/
  vacated : Bool
  task : Task
  callback : Callback D

/-- How far the request has come. -/
def Entry.station (e : Entry D) : Station D where
  kind := e.kind
  stage := e.stage
  vacated := e.isVacated
  task := e.task
  callback := e.callback

/-- Acts that are not busy leave a request at its station. -/
theorem Entry.Edit.station {a : Machine.Act D} {n : Int64} {p : Option Permits} {i : Nat}
    {e f : Entry D} (h : e.Edit a n p i f) (ha : a.isBusy = false) : f.station = e.station := by
  cases h with
  | same | publish | trip | register | handOver | await | take | dropFuture | release => rfl
  | enrol => simp [Entry.station, Entry.isVacated]
  | skip hs =>
      obtain rfl | rfl := hs
      · cases ha
      · cases ha
  | hand hb => cases ha.symm.trans hb
  | dispatch ht | openVacancy ht | vacate ht | endTask ht | park ht | answer ht | spend ht
  | start ht | enqueue ht | stop ht | hear ht | resume ht =>
      subst ht
      cases ha

namespace Machine

/-- How far every request has come. -/
def stations (s : Machine D) : List (Station D) := s.entries.map Entry.station

/-- All stations stay as they are; new ones have no task. No task that is ready ceases to be so, and
the permits stay where they are. -/
structure Steady (s t : Machine D) : Prop where
  permits : t.permits = s.permits
  ready : s.ready.tasks ⊆ t.ready.tasks
  kept : ∃ l, t.stations = s.stations ++ l ∧ ∀ b ∈ l, b.task = .unspawned ∧ b.stage ≠ .vacated

variable {s t : Machine D} {i : Nat} {e f : Entry D}

theorem Steady.same (he : t.entries = s.entries) (hp : t.permits = s.permits)
    (hr : t.ready = s.ready) : s.Steady t :=
  ⟨hp, hr ▸ List.Subset.refl _, [], by simp [stations, he], by simp⟩

/-- What steady changes leave is at its station still. -/
theorem Steady.entry (h : s.Steady t) (he : s.entries[i]? = some e) :
    ∃ f, t.entries[i]? = some f ∧ f.station = e.station := by
  obtain ⟨l, hl, _⟩ := h.kept
  have hs : s.stations[i]? = some e.station := by simp [stations, he]
  have ht : t.stations[i]? = some e.station := hl ▸ getElem?_append_of_some hs
  rw [stations, List.getElem?_map, Option.map_eq_some_iff] at ht
  exact ht

/-- Whoever is new has no task. -/
theorem Steady.cases (h : s.Steady t) (hf : t.entries[i]? = some f) :
    (∃ e, s.entries[i]? = some e ∧ f.station = e.station) ∨
      s.entries[i]? = none ∧ f.task = .unspawned ∧ f.stage ≠ .vacated := by
  cases he : s.entries[i]? with
  | some e =>
      obtain ⟨g, hg, heg⟩ := h.entry he
      obtain rfl := Option.some.inj (hf.symm.trans hg)
      exact .inl ⟨e, rfl, heg⟩
  | none =>
      obtain ⟨l, hl, hb⟩ := h.kept
      have hn : s.stations.length ≤ i := by simpa [stations] using he
      have ht : t.stations[i]? = some f.station := by simp [stations, hf]
      rw [hl, List.getElem?_append_right hn] at ht
      exact .inr ⟨rfl, hb _ (List.mem_of_getElem? ht)⟩

theorem newcomer_unspawned (s : Machine D) (kind : Kind) (body : Body D) :
    (s.newcomer kind body).task = .unspawned ∧ (s.newcomer kind body).stage ≠ .vacated := by
  unfold newcomer
  split
  · simp [Entry.refused]
  · simp [Entry.queued]

/-- Acts that are not busy leave all stations as they are. -/
theorem Edits.steady {a : Act D} (h : Edits a s t) (ha : a.isBusy = false)
    (hn : ∀ kind body, a.submits? = some (kind, body) →
      t.entries = s.entries ++ [s.newcomer kind body]) : s.Steady t := by
  obtain ⟨hp, hr⟩ := h.frame.resolve_left (by simp [ha])
  have hkept : (t.entries.take s.entries.length).map Entry.station = s.stations := by
    refine List.ext_getElem? fun i => ?_
    rw [stations, List.getElem?_map, List.getElem?_map, List.getElem?_take]
    split
    · rename_i hi
      obtain ⟨f, hf, hef⟩ := h.entry (List.getElem?_eq_getElem hi)
      rw [hf, List.getElem?_eq_getElem hi, Option.map_some, hef.station ha, Option.map_some]
    · rename_i hi
      rw [List.getElem?_eq_none (Nat.le_of_not_lt hi), Option.map_none]
  refine ⟨hp, hr, (t.entries.drop s.entries.length).map Entry.station, ?_, fun b hb => ?_⟩
  · rw [← hkept, ← List.map_append, List.take_append_drop, stations]
  · obtain ⟨f, hf, rfl⟩ := List.mem_map.mp hb
    cases hs : a.submits? with
    | none => simp [List.drop_eq_nil_of_le (Nat.le_of_eq (h.length hs))] at hf
    | some c =>
        rw [hn c.1 c.2 hs, List.drop_left, List.mem_singleton] at hf
        exact hf ▸ newcomer_unspawned s c.1 c.2

/-- Most acts leave all stations as they are. -/
theorem Act.steady {a : Act D} (ha : a.isBusy = false) : s.Steady (a.apply s) :=
  (Act.edits_of_idle ha).steady ha fun _ _ hs => Act.entries_of_submits hs s

theorem steady_cancelThen (i : Nat) (after : List (Work D)) (s : Machine D) :
    s.Steady (s.cancelThen i after) :=
  (edits_cancelThen (a := .move (.cancel i)) rfl after s).steady rfl fun _ _ hs => by cases hs

end Machine

end RequestScheduler
