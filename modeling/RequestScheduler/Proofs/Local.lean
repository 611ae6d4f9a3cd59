import RequestScheduler.Proofs.Edit

/-!
# What one work item does

The rules say what becomes of a machine, and not which work item brought it about. Inside an
operation the items matter: which of them move a slot, open a vacancy, set a flag or settle a
request (`exec_follows`).
-/

namespace RequestScheduler

variable {D : Type}

namespace Work

/-- The request whose slot vacates with a work item, or with what it leaves to be done. -/
def vacates? : Work D → Option Nat
  | .openVacancy i | .vacate i | .endTask i => some i
  | _ => none

/-- Whether a work item submits a request or registers a client's continuation. -/
def adds : Work D → Bool
  | .perform (.submit ..) | .perform (.onSettled ..) => true
  | _ => false

end Work

/-- Whether an action only looks, and changes nothing but the register. -/
def Effect.isQuiet : Effect D → Bool
  | .submit .. | .cancel _ | .cancelAll | .onSettled .. => false
  | _ => true

def Continuation.isQuiet : Continuation D → Bool
  | .react _ effects => effects.all Effect.isQuiet
  | _ => true

/-- Whether a work item requests no cancellation and submits nothing. -/
def Work.isQuiet : Work D → Bool
  | .perform a => a.isQuiet
  | .run k => k.isQuiet
  | .cancelSlot _ | .supersede .. | .cancelEach .. => false
  | _ => true

theorem Work.adds_of_isQuiet {w : Work D} (h : w.isQuiet = true) : w.adds = false := by
  cases w with
  | perform a => cases a <;> simp_all [isQuiet, adds, Effect.isQuiet]
  | _ => rfl

theorem Work.trips?_of_isQuiet {w : Work D} (h : w.isQuiet = true) : w.trips? = none := by
  cases w with
  | perform a => cases a <;> simp_all [isQuiet, trips?, Effect.isQuiet]
  | _ => simp_all [isQuiet, trips?]

/-- What a work item can do to the entry of request `i`. -/
structure Entry.Follows (w : Work D) (i : Nat) (e f : Entry D) : Prop where
  stage : f.stage = e.stage ∨ w = .skip i ∨ w = .dispatch i ∨ w = .vacate i
  vacancy : f.isVacated = e.isVacated ∨ w.vacates? = some i
  tripped : f.request.tripped = e.request.tripped ∨ w.trips? = some i
  continuations : w.adds = false →
    f.request.cell.continuations ⊆ e.request.cell.continuations

/-- What acts do to a request, as far as work items do it. -/
theorem Entry.Edit.follows {w : Work D} {n : Int64} {p : Option Permits} {i : Nat} {e f : Entry D}
    (h : e.Edit (.item w) n p i f) : e.Follows w i f := by
  cases h with
  | same | handOver | endTask | park | answer | spend | hand =>
      exact ⟨.inl rfl, .inl rfl, .inl rfl, fun _ _ hk => hk⟩
  | publish => exact ⟨.inl rfl, .inl rfl, .inl rfl, fun _ => by simp⟩
  | trip ha => exact ⟨.inl rfl, .inl rfl, .inr ha, fun _ _ hk => hk⟩
  | register ha =>
      refine ⟨.inl rfl, .inl rfl, .inl rfl, fun hw => ?_⟩
      cases w with
      | perform c =>
          cases c with
          | onSettled => cases hw
          | _ => cases ha
      | _ => cases ha
  | skip ha =>
      have hw : w = .skip i ∨ w = .dispatch i := ha.imp Machine.Act.item.inj Machine.Act.item.inj
      exact ⟨.inr (hw.imp_right .inl), .inl rfl, .inl rfl, fun _ _ hk => hk⟩
  | dispatch ha =>
      cases ha
      exact ⟨.inr (.inr (.inl rfl)), .inl rfl, .inl rfl, fun _ _ hk => hk⟩
  | openVacancy ha =>
      cases ha
      exact ⟨.inl rfl, .inr rfl, .inl rfl, fun _ _ hk => hk⟩
  | vacate ha =>
      cases ha
      exact ⟨.inr (.inr (.inr rfl)), .inr rfl, .inl rfl, fun _ _ hk => hk⟩
  | enrol => exact ⟨.inl rfl, .inl (by simp [Entry.isVacated]), .inl rfl, fun _ _ hk => hk⟩
  | start ha | enqueue ha | stop ha | hear ha | resume ha | await ha | take ha | dropFuture ha
  | release ha => cases ha

namespace Machine

/-- What a work item can do to the entries that are there. -/
structure Follows (w : Work D) (s t : Machine D) : Prop where
  entry : ∀ {i : Nat} {e : Entry D}, s.entries[i]? = some e →
    ∃ f, t.entries[i]? = some f ∧ e.Follows w i f
  length : w.adds = false → t.entries.length = s.entries.length

/-- All continuations that wait for a settlement only look. -/
def Quiet (s : Machine D) : Prop := ∀ {i : Nat} {e : Entry D}, s.entries[i]? = some e →
  ∀ k ∈ e.request.cell.continuations, k.isQuiet = true

/-- A work item moves the slot it is for and no other, and sets no other flag. -/
theorem exec_follows (w : Work D) (s : Machine D) : Follows w s (exec w s) where
  entry he := by
    obtain ⟨f, hf, hef⟩ := (exec_edits w s).entry he
    exact ⟨f, hf, hef.follows⟩
  length hw := by
    refine (exec_edits w s).length ?_
    cases w with
    | perform c =>
        cases c with
        | submit => cases hw
        | _ => rfl
    | _ => rfl

end Machine

end RequestScheduler
