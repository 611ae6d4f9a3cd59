import RequestScheduler.Proofs.Upkeep

/-!
# Vacancy and settlement

Whoever vacates a slot relies on somebody to have settled the request. A cancellation that finds the
slot queued settles it first, and so does the task of the slot when it ends. But a slot that is to
be dispatched vacates as soon as the flag of its request is set, and the flag is set before the
request settles. So a vacated slot whose request is pending is one that was skipped because of its
flag, and the flag was set by itself, or by a thread that is about to settle the request
(`Slot.settled_or_skipped`). Both happen (`Slot.settled_or_skipped_between`,
`Slot.vacated_pending`).
-/

namespace RequestScheduler

variable {D : Type}

namespace Crew

open Machine

variable {M : Type} {begin : M → Machine D → Machine D} {bare : M → Option Nat} {c d : Crew D}
  {permits : Option Permits} {n i : Nat} {past : List M}

/-- Some thread settles the request next. -/
def Settling (c : Crew D) (i : Nat) : Prop := ∃ o rest, Work.settle i o :: rest ∈ c.threads

/-- The flag of a request whose flag is set was set by itself, or its setting is the first half of a
cancellation. -/
def Accounted (bare : M → Option Nat) (past : List M) (c : Crew D) : Prop :=
  ∀ {i : Nat}, c.machine.At i (·.request.tripped = true) →
    c.machine.At i (·.request.isSettled = true) ∨ (∃ m ∈ past, bare m = some i) ∨ c.Settling i

/-- The second half of a cancellation follows the first, unless another thread goes on. -/
theorem Settling.step {ms : List M} (h : c.Settling i) (hf : c.Fit) (hs : c.Step begin ms d) :
    d.machine.At i (·.request.isSettled = true) ∨ d.Settling i := by
  obtain ⟨o, rest, hl⟩ := h
  have elsewhere {k : Nat} {t : Machine D} (hk : c.threads[k]? ≠ some (.settle i o :: rest)) :
      (c.put k t).Settling i := by
    obtain ⟨j, hj⟩ := List.getElem?_of_mem hl
    have hne : k ≠ j := by
      rintro rfl
      exact hk hj
    exact ⟨o, rest, List.mem_of_getElem? (by rw [put, List.getElem?_set_ne hne, hj])⟩
  cases hs with
  | @work k w r hk =>
      by_cases hw : w :: r = .settle i o :: rest
      · obtain ⟨rfl, rfl⟩ := List.cons.inj hw
        exact .inl (isSettled_exec (s := c.seen r) (hf.inOrder hl).1)
      · exact .inr (elsewhere fun h => hw (Option.some.inj (hk.symm.trans h)))
  | move m hk => exact .inr (elsewhere fun h => by simp [hk] at h)

/-- A flag is not set for nothing. -/
theorem History.accounted (hb : Lawful begin bare) (h : History begin permits n past c) :
    Accounted bare past c := by
  induction h with
  | start =>
      intro i ht
      obtain ⟨e, he, _⟩ := ht
      simp [Crew.start, Machine.start] at he
  | @next past ms c d h hs ih =>
      intro i ht
      have hf := h.fit hb
      have hadv := hs.advances hb hf
      obtain ht | ⟨m, hm, hbare⟩ | hset := hadv.flag ht
      · obtain hset | ⟨m, hm, hbare⟩ | hset := ih ht
        · exact .inl (hset.keep hadv.keeps (·.settled))
        · exact .inr (.inl ⟨m, List.mem_append_right _ hm, hbare⟩)
        · exact (hset.step hf hs).imp_right .inr
      · exact .inr (.inl ⟨m, List.mem_append_left _ hm, hbare⟩)
      · exact .inr (.inr hset)

end Crew

namespace Slot

open Machine Crew

variable {permits : Option Permits} {n i : Nat} {past : List (Move D)} {c : Crew D}

/-- The request of a vacated slot has settled, unless the slot was skipped because of a flag that
was set by itself, or that a thread set which is to settle the request next. -/
theorem settled_or_skipped (h : History Move.begin permits n past c)
    (hv : c.machine.vacated i = true) :
    c.machine.At i fun e => e.request.isSettled = true ∨
      e.IsSkipped ∧ ((∃ m ∈ past, m.bare? = some i) ∨ c.Settling i) := by
  obtain ⟨e, he, hv⟩ := vacated_eq_true_iff.mp hv
  refine ⟨e, he, ?_⟩
  obtain hset | hskip := ((h.fit lawful_begin).machine.entry he).excused hv
  · exact .inl hset
  · have hflag := h.accounted lawful_begin ⟨e, he, hskip.tripped⟩
    exact hflag.imp (·.of_entry he) (⟨hskip, ·⟩)

/-- One thread is halfway through the cancellation of a slot when another dispatches it. -/
def crossing : List (Nat × Option (Move Unit)) :=
  [(0, some (.make .read (.immediate none))), (0, some (.machine (.cancel 0))),
    (1, some (.dispatch 0)), (1, none), (1, none)]

def between : Crew Unit := (Crew.start none 2).play Move.begin crossing

theorem settled_or_skipped_between : ∃ past, History Move.begin none 2 past between ∧
    (∀ m ∈ past, m.bare? = none) ∧ between.machine.vacated 0 = true ∧
    (between.machine.At 0 fun e => e.request.isSettled = false ∧ e.IsSkipped) ∧
    between.Settling 0 := by
  obtain ⟨past, hpast, hmoves⟩ := History.play crossing
    (.start (n := 2) : History Move.begin none 2 [] (Crew.start none 2))
  have hbare : ∀ m ∈ past ++ [], m.bare? = none := by
    intro m hm
    obtain ⟨k, hk⟩ := hmoves m (by simpa using hm)
    simp only [crossing, List.mem_cons, Prod.mk.injEq, Option.some.injEq, reduceCtorEq, and_false,
      List.not_mem_nil, or_false] at hk
    obtain ⟨_, rfl⟩ | ⟨_, rfl⟩ | ⟨_, rfl⟩ := hk <;> rfl
  have hv : between.machine.vacated 0 = true := rfl
  obtain ⟨e, he, hcases⟩ := settled_or_skipped hpast hv
  have hpending : between.machine.At 0 (·.request.isSettled = false) := ⟨_, rfl, rfl⟩
  have hpending : e.request.isSettled = false := hpending.of_entry he
  obtain ⟨hskip, hflag⟩ := hcases.resolve_left (by simp [hpending])
  obtain ⟨m, hm, hone⟩ | hset := hflag
  · simp [hbare m hm] at hone
  · exact ⟨_, hpast, hbare, hv, ⟨e, he, hpending, hskip⟩, hset⟩

/-- The flag of a request is set, and its slot is dispatched. -/
def flagged : Machine Unit :=
  (run [.slot .read (.immediate none), .trip 0, .dispatch 0] (Machine.start none)).2

/-- The slot has vacated, and the request stays pending. -/
theorem vacated_pending : Attained none flagged ∧ flagged.vacated 0 = true ∧
    flagged.At 0 (·.request.isSettled = false) := by
  have hnow : flagged = ((((Machine.start none).newSlot .read (.immediate none)).trip 0).push
      [.dispatch 0]).drain := rfl
  have hsteps : flagged = ((((Machine.start none).newSlot .read (.immediate none)).trip 0).push
      [.dispatch 0]).steps 8 := hnow.trans (drain_eq_steps 8 _ rfl)
  refine ⟨history_run _ ⟨⟨[], .start⟩, rfl⟩, ?_, ?_⟩
  · rw [hsteps]
    rfl
  · rw [hsteps]
    exact ⟨_, rfl, rfl⟩

end Slot

end RequestScheduler
