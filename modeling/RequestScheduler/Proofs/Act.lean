import RequestScheduler.Proofs.Transition

/-!
# Acts and histories

A step of a machine is an act: its first work item is carried out, or a move comes to it while it is
at rest. A history is a run that remembers its acts, the latest first, each with the machine that it
was done to. What a state owes to its past is said of histories; what a single act does is said of
acts.
-/

namespace RequestScheduler

namespace Machine

variable {D : Type}

/-- What a machine does in one step. -/
inductive Act (D : Type) where
  | item (w : Work D)
  | move (m : Move D)

namespace Act

/-- A work item is carried out when it comes first, and a move comes to a machine at rest. -/
def Enabled : Act D → Machine D → Prop
  | .item w, s => s.work.head? = some w
  | .move _, s => s.work = []

def apply : Act D → Machine D → Machine D
  | .item w, s => exec w { s with work := s.work.tail }
  | .move m, s => m.begin s

/-- The callback that an act submits, with its kind. -/
def submits? : Act D → Option (Kind × Body D)
  | .item (.perform (.submit kind mode pre post result)) => some (kind, { mode, pre, post, result })
  | .move (.submit kind body) => some (kind, body)
  | _ => none

/-- Whether an act takes stock of all outstanding requests in order to cancel them. -/
def cancelsAll : Act D → Bool
  | .item (.perform .cancelAll) | .move .cancelAll | .move .shutdown => true
  | _ => false

end Act

variable {s t : Machine D} {permits : Option Permits} {a : Act D} {w : Work D} {i : Nat}
  {e : Entry D} {rest : List (Work D)} {past : List (Machine D × Act D)}

theorem Act.enabled_item : (Act.item w).Enabled s ↔ ∃ rest, s.work = w :: rest := by
  simp [Enabled, List.head?_eq_some_iff]

/-- The first work item is carried out while the others wait. -/
theorem Act.apply_item (h : s.work = w :: rest) :
    (Act.item w).apply s = exec w { s with work := rest } := by
  simp [apply, h]

/-- The steps of a machine are the acts that it can do. -/
theorem step_iff : Step s t ↔ ∃ a : Act D, a.Enabled s ∧ t = a.apply s := by
  constructor
  · intro h
    cases h with
    | work h =>
        obtain ⟨w, rest, hw, rfl⟩ := exists_of_step? h
        exact ⟨.item w, Act.enabled_item.mpr ⟨rest, hw⟩, (Act.apply_item hw).symm⟩
    | move m h => exact ⟨.move m, h, rfl⟩
  · rintro ⟨a, ha, rfl⟩
    cases a with
    | item w =>
        obtain ⟨rest, hw⟩ := Act.enabled_item.mp ha
        refine .work ?_
        rw [Act.apply_item hw, step?, hw]
    | move m => exact .move m ha

theorem Act.Enabled.step (ha : a.Enabled s) : Step s (a.apply s) := step_iff.mpr ⟨a, ha, rfl⟩

/-- A machine and the acts that led to it, the latest first, each with the machine that it was done
to. -/
inductive History (permits : Option Permits) : List (Machine D × Act D) → Machine D → Prop
  | start : History permits [] (start permits)
  | next {past : List (Machine D × Act D)} {s : Machine D} {a : Act D}
      (h : History permits past s) (ha : a.Enabled s) : History permits ((s, a) :: past) (a.apply s)

namespace History

theorem reachable (h : History permits past s) : Reachable permits s := by
  induction h with
  | start => exact .refl
  | next _ ha ih => exact .tail ih ha.step

/-- Every state of a run has a history. -/
theorem exists_of_reachable (h : Reachable permits s) :
    ∃ past, History permits past s := by
  induction h with
  | refl => exact ⟨[], .start⟩
  | tail _ hstep ih =>
      obtain ⟨past, hpast⟩ := ih
      obtain ⟨a, ha, rfl⟩ := step_iff.mp hstep
      exact ⟨_, hpast.next ha⟩

/-- What was done before an act, and after it. -/
theorem split {u : Machine D} {later before : List (Machine D × Act D)}
    (h : History permits (later ++ (u, a) :: before) s) :
    History permits before u ∧ a.Enabled u ∧ Run (a.apply u) s := by
  induction later generalizing s with
  | nil =>
      cases h with
      | next h ha => exact ⟨h, ha, .refl⟩
  | cons p later ih =>
      cases h with
      | next h ha =>
          obtain ⟨hu, hen, hrun⟩ := ih h
          exact ⟨hu, hen, hrun.tail ha.step⟩

end History

/-- What a submission brings into a machine, at the end of its entries. -/
def newcomer (s : Machine D) (kind : Kind) (body : Body D) : Entry D :=
  if s.admission.closed then .refused kind
  else .queued kind (s.admission.lastSeq + 1) (.callback body)

theorem entries_submit (kind : Kind) (body : Body D) (after : List (Work D)) (s : Machine D) :
    (s.submit kind body after).entries = s.entries ++ [s.newcomer kind body] := by
  unfold submit newcomer
  dsimp only
  split
  · rfl
  · cases kind with
    | read =>
        dsimp only
        split <;> rfl
    | write => rfl

/-- Closing the permits reaches no request and no gate, and leaves nothing to be done. -/
theorem frame_closePermits (s : Machine D) : s.closePermits.entries = s.entries ∧
    s.closePermits.admission = s.admission ∧ s.closePermits.gates = s.gates ∧
    s.closePermits.work = s.work := by
  unfold closePermits
  split <;> exact ⟨rfl, rfl, rfl, rfl⟩

@[simp] theorem entries_closeDown (s : Machine D) : s.closeDown.entries = s.entries :=
  (frame_closePermits _).1

theorem admission_closeDown (s : Machine D) :
    s.closeDown.admission = (s.admission.close s.vacated).2 :=
  (frame_closePermits _).2.1

theorem gates_closeDown (s : Machine D) : s.closeDown.gates = s.gates :=
  (frame_closePermits _).2.2.1

theorem work_closeDown (s : Machine D) :
    s.closeDown.work = (s.admission.close s.vacated).1.map .cancelSlot ++ s.work :=
  congrArg _ (frame_closePermits _).2.2.2

@[simp] theorem closed_closeDown (s : Machine D) : s.closeDown.admission.closed = true := by
  rw [admission_closeDown]
  rfl

/-- The first work item publishes what it is for. -/
theorem entry_settle {o : Outcome (Value D)} {r : List (Work D)}
    (he : s.entries[i]? = some e) (hn : e.request.isSettled = false) :
    (exec (.settle i o) { s with work := r }).entries[i]? =
      some { e with request := e.request.publish o } := by
  simp [exec, settle, he, hn, getElem?_set_of_some he]

/-- An act that submits a request does nothing else. -/
theorem Act.apply_of_submits {kind : Kind} {body : Body D} (ha : a.submits? = some (kind, body))
    (s : Machine D) :
    ∃ l after : List (Work D), a.apply s = { s with work := l }.submit kind body after := by
  cases a with
  | item w =>
      cases w with
      | perform c =>
          cases c with
          | submit =>
              obtain ⟨rfl, rfl⟩ := Prod.mk.inj (Option.some.inj ha)
              exact ⟨_, _, rfl⟩
          | _ => cases ha
      | _ => cases ha
  | move m =>
      cases m with
      | submit =>
          obtain ⟨rfl, rfl⟩ := Prod.mk.inj (Option.some.inj ha)
          exact ⟨s.work, _, rfl⟩
      | _ => cases ha

/-- A submission adds one request. -/
theorem Act.entries_of_submits {kind : Kind} {body : Body D} (ha : a.submits? = some (kind, body))
    (s : Machine D) : (a.apply s).entries = s.entries ++ [s.newcomer kind body] := by
  obtain ⟨l, after, happly⟩ := Act.apply_of_submits ha s
  rw [happly]
  exact entries_submit ..

end Machine

end RequestScheduler
