import RequestScheduler.Proofs.Local
import RequestScheduler.Proofs.Steps

/-!
# Carrying an operation to its end

A work item leaves others in front of what was to be done already (`exec_leaves`). So an operation
is followed to its end by counting what is left (`drainTo`), and what holds of the work in front and
goes on to hold while it is done holds when nothing is in front any more (`drainTo_induction`).
-/

namespace RequestScheduler

namespace Machine

variable {D : Type} {s t u : Machine D} {i : Nat} {e : Entry D} {w : Work D}
  {items rest : List (Work D)}

@[simp] theorem work_trip (i : Nat) (s : Machine D) : (s.trip i).work = s.work := by
  unfold trip
  split <;> rfl

@[simp] theorem work_cancelThen (i : Nat) (after : List (Work D)) (s : Machine D) :
    (s.cancelThen i after).work = .settle i (.error .cancelled) :: after ++ s.work := by
  simp [cancelThen, push]

/-- What a work item leaves in front of the others: none of it vacates a slot but that of the item,
or one that was queued. -/
structure Leaves (w : Work D) (s : Machine D) (items : List (Work D)) (t : Machine D) : Prop where
  work : t.work = items ++ s.work
  vacates : ∀ {v : Work D} {i : Nat}, v ∈ items → v.vacates? = some i →
    w.vacates? = some i ∨ s.At i (·.stage = .queued)
  quiet : w.isQuiet = true → s.Quiet → s.Coherent → ∀ v ∈ items, v.isQuiet = true

/-- Nothing is left that vacates a slot. -/
theorem Leaves.plain (h : t.work = items ++ s.work)
    (hv : ∀ v ∈ items, v.vacates? = none)
    (hq : w.isQuiet = true → s.Quiet → s.Coherent → ∀ v ∈ items, v.isQuiet = true) :
    Leaves w s items t :=
  ⟨h, fun hm hi => by simp [hv _ hm] at hi, hq⟩

/-- Nothing is left. -/
theorem Leaves.nothing (h : t.work = s.work) : Leaves w s [] t :=
  .plain h (List.forall_mem_nil _) fun _ _ _ => List.forall_mem_nil _

/-- What is left after work that may submit and cancel. -/
theorem Leaves.loud (hw : w.isQuiet = false) (h : t.work = items ++ s.work)
    (hv : ∀ v ∈ items, v.vacates? = none) : Leaves w s items t :=
  .plain h hv fun hq => by simp [hw] at hq

/-- Nothing is left that vacates a slot, submits or cancels. -/
theorem Leaves.calm (h : t.work = items ++ s.work)
    (hi : ∀ v ∈ items, v.vacates? = none ∧ v.isQuiet = true) : Leaves w s items t :=
  .plain h (fun v hv => (hi v hv).1) fun _ _ _ v hv => (hi v hv).2

theorem leaves_skip (s : Machine D) : ∃ items, Leaves w s items (s.skip i) := by
  unfold skip
  split
  · exact ⟨_, .nothing rfl⟩
  rename_i e he
  split
  · rename_i hq
    refine ⟨_, rfl, fun hm hi => ?_, fun _ _ _ => by simp [Work.isQuiet]⟩
    obtain rfl := List.mem_singleton.mp hm
    obtain rfl := Option.some.inj hi
    exact .inr ⟨e, he, hq⟩
  · exact ⟨_, .nothing rfl⟩

theorem leaves_submit {kind : Kind} {body : Body D} {after : List (Work D)}
    (hw : w.isQuiet = false) (ha : ∀ v ∈ after, v.vacates? = none) (s : Machine D) :
    ∃ items, Leaves w s items (s.submit kind body after) := by
  unfold submit
  dsimp only
  split
  · exact ⟨_, .loud hw rfl (by simpa [Work.vacates?] using ha)⟩
  cases kind with
  | read =>
      dsimp only
      split
      · exact ⟨_, .loud hw rfl (by simpa [Work.vacates?] using ha)⟩
      · exact ⟨_, .loud hw rfl (by simpa [Work.vacates?] using ha)⟩
  | write =>
      refine ⟨_, .loud hw rfl fun v hv => ?_⟩
      simp only [List.mem_append, List.mem_map, List.mem_cons] at hv
      obtain ⟨_, _, rfl⟩ | rfl | rfl | hv := hv
      · rfl
      · rfl
      · rfl
      · exact ha v hv

/-- The vacancy opens of a slot of which nothing else has changed but its stage. -/
theorem leaves_openVacancy {after : List (Work D)} (ht : t.work = s.work)
    (he : t.entries[i]? = some e)
    (hv : s.Coherent → ∀ k ∈ e.vacancy.continuations, ∃ g, k = .release g)
    (ha : ∀ v ∈ after, v.vacates? = none ∧ v.isQuiet = true) :
    ∃ items, Leaves w s items (t.openVacancy i after) := by
  simp only [openVacancy, he]
  split
  · exact ⟨_, .nothing ht⟩
  refine ⟨e.vacancy.continuations.map .run ++ after, .plain (by simp [ht]) (fun v hv => ?_)
    fun _ _ hc v hm => ?_⟩
  · obtain hv | hv := List.mem_append.mp hv
    · obtain ⟨k, _, rfl⟩ := List.mem_map.mp hv
      rfl
    · exact (ha v hv).1
  · obtain hm | hm := List.mem_append.mp hm
    · obtain ⟨k, hk, rfl⟩ := List.mem_map.mp hm
      obtain ⟨g, rfl⟩ := hv hc k hk
      rfl
    · exact (ha v hm).2

theorem leaves_perform (a : Effect D) (s : Machine D) :
    ∃ items, Leaves (.perform a) s items (s.perform a) := by
  cases a with
  | set | add | mul | log | status | snapshot => exact ⟨_, .nothing rfl⟩
  | submit => exact leaves_submit rfl (by simp [Work.vacates?]) s
  | cancel i =>
      unfold perform
      dsimp only
      split
      · exact ⟨_, .nothing rfl⟩
      · exact ⟨_, .loud rfl (work_cancelThen _ _ s) (by simp [Work.vacates?])⟩
  | cancelAll => exact ⟨[_, _], .loud rfl rfl (by simp [Work.vacates?])⟩
  | onSettled i tag effects =>
      unfold perform
      dsimp only
      split
      · exact ⟨_, .nothing rfl⟩
      unfold onSettled
      split
      · exact ⟨[_], .loud rfl rfl (by simp [Work.vacates?])⟩
      split
      · exact ⟨[_, _], .loud rfl rfl (by simp [Work.vacates?])⟩
      · exact ⟨[_], .loud rfl rfl (by simp [Work.vacates?])⟩

theorem leaves_run (k : Continuation D) (s : Machine D) :
    ∃ items, Leaves (.run k) s items (s.run k) := by
  cases k with
  | release => exact ⟨[_], .calm rfl (by simp [Work.vacates?, Work.isQuiet])⟩
  | react tag effects =>
      refine ⟨effects.map .perform, .plain rfl (by simp [Work.vacates?]) fun hq _ _ v hv => ?_⟩
      obtain ⟨a, ha, rfl⟩ := List.mem_map.mp hv
      exact List.all_eq_true.mp hq a ha
  | announce => exact ⟨_, .nothing rfl⟩

theorem leaves_settle (o : Outcome (Value D)) (s : Machine D) :
    ∃ items, Leaves w s items (s.settle i o) := by
  unfold settle
  split
  · exact ⟨_, .nothing rfl⟩
  rename_i e he
  split
  · exact ⟨_, .nothing rfl⟩
  · refine ⟨_, .plain rfl (by simp [Work.vacates?]) fun _ hq _ v hv => ?_⟩
    obtain ⟨k, hk, rfl⟩ := List.mem_map.mp hv
    exact hq he k hk

theorem leaves_vacate (s : Machine D) : ∃ items, Leaves w s items (s.vacate i) := by
  unfold vacate
  split
  · exact ⟨_, .nothing rfl⟩
  rename_i e he
  have hput := getElem?_set_of_some (b := { e with stage := .vacated }) he
  exact leaves_openVacancy rfl hput (fun hc => (hc he).releases)
    (by simp [Work.vacates?, Work.isQuiet])

theorem leaves_dispatch (s : Machine D) : ∃ items, Leaves w s items (s.dispatch i) := by
  unfold dispatch
  split
  · exact ⟨_, .nothing rfl⟩
  rename_i e he
  split
  · rename_i hq
    split
    · exact leaves_skip s
    · split
      · exact ⟨_, .nothing rfl⟩
      · refine ⟨[.endTask i], rfl, fun hm hi => ?_, fun _ _ _ => by simp [Work.isQuiet]⟩
        obtain rfl := List.mem_singleton.mp hm
        obtain rfl := Option.some.inj hi
        exact .inr ⟨e, he, hq⟩
  · exact ⟨_, .nothing rfl⟩

theorem leaves_chain (x : Nat) (ds : List Nat) (s : Machine D) :
    ∃ items, Leaves w s items (s.chain x ds) := by
  refine ⟨ds.map (Work.await s.gates.length) ++ [.release s.gates.length],
    .calm (by simp [chain]) fun v hv => ?_⟩
  simp only [List.mem_append, List.mem_map, List.mem_singleton] at hv
  obtain ⟨d, _, rfl⟩ | rfl := hv <;> exact ⟨rfl, rfl⟩

theorem leaves_await (g d : Nat) (s : Machine D) : ∃ items, Leaves w s items (s.await g d) := by
  unfold await
  split
  · exact ⟨_, .nothing rfl⟩
  split
  · exact ⟨[_], .calm rfl (by simp [Work.vacates?, Work.isQuiet])⟩
  · exact ⟨_, .nothing rfl⟩

theorem leaves_release (g : Nat) (s : Machine D) : ∃ items, Leaves w s items (s.release g) := by
  unfold release
  split
  · exact ⟨_, .nothing rfl⟩
  split
  · exact ⟨[_], .calm rfl (by simp [Work.vacates?, Work.isQuiet])⟩
  · exact ⟨_, .nothing rfl⟩

/-- A task that ends leaves the settlement of its request and the vacancy of its slot. -/
theorem leaves_endTask (s : Machine D) : ∃ items, Leaves (.endTask i) s items (s.endTask i) := by
  unfold endTask
  split
  · exact ⟨_, .nothing rfl⟩
  rename_i e he
  refine ⟨[.settle i (.error .cancelled), .vacate i], ?_, fun hm hi => ?_,
    fun _ _ _ => by simp [Work.isQuiet]⟩
  · split
    · simp [push, (touches_putPermit _).2, put]
    · simp [push, (touches_putPermit _).2, put]
    · rfl
    · rfl
  · simp only [List.mem_cons, List.not_mem_nil, or_false] at hm
    obtain rfl | rfl := hm
    · cases hi
    · exact .inl hi

/-- Every work item leaves what was to be done already where it is. -/
theorem exec_leaves (w : Work D) (s : Machine D) : ∃ items, Leaves w s items (exec w s) := by
  cases w with
  | perform a => exact leaves_perform a s
  | emit | note | reportTally => exact ⟨_, .nothing rfl⟩
  | run k => exact leaves_run k s
  | settle i o => exact leaves_settle o s
  | cancelSlot i => exact ⟨_, .loud rfl (work_cancelThen _ _ s) (by simp [Work.vacates?])⟩
  | supersede i x =>
      simp only [exec, supersede]
      split
      · refine ⟨_, .loud rfl (work_cancelThen _ _ s) ?_⟩
        split <;> simp [Work.vacates?]
      · exact ⟨_, .nothing rfl⟩
  | cancelEach ids =>
      cases ids with
      | nil => exact ⟨_, .nothing rfl⟩
      | cons i ids => exact ⟨_, .loud rfl (work_cancelThen _ _ s) (by simp [Work.vacates?])⟩
  | skip i => exact leaves_skip s
  | openVacancy i =>
      cases he : s.entries[i]? with
      | none =>
          simp only [exec, openVacancy, he]
          exact ⟨_, .nothing rfl⟩
      | some e =>
          exact leaves_openVacancy rfl he (fun hc => (hc he).releases) (List.forall_mem_nil _)
  | vacate i => exact leaves_vacate s
  | dispatch i => exact leaves_dispatch s
  | chain x ds => exact leaves_chain x ds s
  | await g d => exact leaves_await g d s
  | release g => exact leaves_release g s
  | endTask i => exact leaves_endTask s
  | handOver | park =>
      simp only [exec, handOver, park]
      split <;> exact ⟨_, .nothing rfl⟩
  | finish =>
      simp only [exec, finish]
      split
      · exact ⟨_, .nothing rfl⟩
      split <;> exact ⟨_, .nothing rfl⟩

/-- Carries out work until `n` items are left: what an operation sets off, when so many items were
to be done already. -/
def drainTo (n : Nat) (s : Machine D) : Machine D :=
  if s.work.length ≤ n then s
  else match h : s.step? with
    | none => s
    | some t =>
      have : t.Below s := step?_below h
      t.drainTo n
termination_by (s.text, s.load)
decreasing_by exact this.lex

theorem drainTo_of_step? {n : Nat} (hn : n < s.work.length) (h : s.step? = some t) :
    s.drainTo n = t.drainTo n := by
  rw [drainTo, if_neg (by omega)]
  split <;> simp_all

theorem drainTo_of_length_le {n : Nat} (hn : s.work.length ≤ n) : s.drainTo n = s := by
  rw [drainTo, if_pos hn]

/-- An operation in a machine at rest is carried out to its end. -/
theorem drainTo_zero (s : Machine D) : s.drainTo 0 = s.drain := by
  cases hs : s.step? with
  | none =>
      have hw : s.work = [] := step?_eq_none_iff.mp hs
      rw [drain_of_atRest hw, drainTo_of_length_le (by simp [hw])]
  | some t =>
      obtain ⟨w, rest, hw, _⟩ := exists_of_step? hs
      have : t.Below s := step?_below hs
      rw [drain_of_step? hs, drainTo_of_step? (by simp [hw]) hs]
      exact drainTo_zero t
termination_by (s.text, s.load)
decreasing_by exact this.lex

/-- What holds of the work in front of `rest` and goes on to hold while that work is done holds
when nothing is in front any more. In the end that is so. -/
theorem drainTo_induction {p : List (Work D) → Machine D → Prop} {s : Machine D}
    {front : List (Work D)} (hw : s.work = front ++ rest) (hp : p front s)
    (hstep : ∀ {t u : Machine D} {w : Work D} {f items : List (Work D)},
      t.work = w :: (f ++ rest) → u = exec w { t with work := f ++ rest } →
      Leaves w { t with work := f ++ rest } items u → p (w :: f) t → p (items ++ f) u) :
    (s.drainTo rest.length).work = rest ∧ p [] (s.drainTo rest.length) := by
  cases front with
  | nil =>
      rw [drainTo_of_length_le (by simp [hw])]
      exact ⟨hw, hp⟩
  | cons w f =>
      have hs : s.step? = some (exec w { s with work := f ++ rest }) := by rw [step?, hw]; rfl
      obtain ⟨items, hl⟩ := exec_leaves w { s with work := f ++ rest }
      have : (exec w { s with work := f ++ rest }).Below s := step?_below hs
      have hn : rest.length < s.work.length := by
        rw [hw, List.length_append, List.length_cons]
        omega
      have hp := hstep hw rfl hl hp
      rw [drainTo_of_step? hn hs]
      refine drainTo_induction ?_ hp hstep
      rw [hl.work, List.append_assoc]
termination_by (s.text, s.load)
decreasing_by exact this.lex

/-- Once all work is done no more steps are made. -/
theorem steps_of_le {n k : Nat} (hn : (s.steps n).work = []) (hk : n ≤ k) :
    s.steps k = s.steps n := by
  induction n generalizing s k with
  | zero =>
      cases k with
      | zero => rfl
      | succ k =>
          have hs : s.step? = none := step?_eq_none_iff.mpr hn
          simp only [steps, hs]
  | succ n ih =>
      obtain ⟨k, rfl⟩ : ∃ m, k = m + 1 := ⟨k - 1, by omega⟩
      unfold steps at hn ⊢
      split
      · rfl
      · rename_i t hs
        rw [hs] at hn
        exact ih hn (by omega)

/-- The machine is `t` at some moment while the work of `s` is done. -/
def Amid (s t : Machine D) : Prop := ∃ n, t = s.steps n

theorem Amid.refl (s : Machine D) : s.Amid s := ⟨0, rfl⟩

theorem Amid.step (h : s.Amid t) (ht : t.step? = some u) : s.Amid u := by
  obtain ⟨n, rfl⟩ := h
  induction n generalizing s with
  | zero =>
      have ht : s.step? = some u := ht
      exact ⟨1, by rw [steps, ht]; rfl⟩
  | succ n ih =>
      unfold steps at ht
      split at ht
      · rename_i hs
        cases hs.symm.trans ht
      · rename_i v hs
        obtain ⟨m, hm⟩ := ih ht
        exact ⟨m + 1, by rw [steps, hs]; exact hm⟩

/-- What holds at first and goes on to hold while work is done holds at every moment of it. -/
theorem Amid.induct {p : Machine D → Prop} (h : s.Amid t) (hp : p s)
    (hstep : ∀ {u v : Machine D}, u.step? = some v → p u → p v) : p t := by
  obtain ⟨n, rfl⟩ := h
  induction n generalizing s with
  | zero => exact hp
  | succ n ih =>
      unfold steps
      split
      · exact hp
      · rename_i u hs
        exact ih (hstep hs hp)

/-- What holds of the work of an operation in a machine at rest and goes on to hold while that work
is done holds when all is done. -/
theorem drain_carries {p : List (Work D) → Machine D → Prop} (hp : p s.work s)
    (hstep : ∀ {t u : Machine D} {w : Work D} {f items : List (Work D)}, s.Amid t →
      t.work = w :: f → u = exec w { t with work := f } → Leaves w { t with work := f } items u →
      p (w :: f) t → p (items ++ f) u) : p [] s.drain := by
  obtain ⟨_, _, hend⟩ := drainTo_induction (p := fun front t => s.Amid t ∧ p front t)
    (List.append_nil _).symm ⟨.refl s, hp⟩ (by
      rintro t u w f items ht hu hl ⟨ham, hp⟩
      rw [List.append_nil] at ht hu hl
      exact ⟨ham.step (by rw [step?, ht, hu]), hstep ham ht hu hl hp⟩)
  rw [← drainTo_zero]
  exact hend

end Machine

end RequestScheduler
