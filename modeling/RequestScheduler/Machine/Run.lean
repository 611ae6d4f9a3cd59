import RequestScheduler.Machine.Measure

/-!
# Letting a machine come to rest

`drain` does the work that is there, and what that work sets off, and nothing else. `pump` also
lets the runtime poll and callbacks advance, until nothing happens by itself any more.
-/

namespace RequestScheduler

namespace Machine

variable {D : Type}

/-- Carries out the work, and what it sets off, until nothing is left to be done. -/
def drain (s : Machine D) : Machine D :=
  match h : s.step? with
  | none => s
  | some t =>
    have : t.Below s := step?_below h
    t.drain
termination_by (s.text, s.load)
decreasing_by exact this.lex

/-- Lets the machine go on by itself until nothing more happens. -/
def pump (s : Machine D) : Machine D :=
  match h : s.next? with
  | none => s.pause
  | some t =>
    have : t.Below s := next?_below h
    t.pump
termination_by (s.text, s.load)
decreasing_by exact this.lex

theorem drain_of_step? {s t : Machine D} (h : s.step? = some t) : s.drain = t.drain := by
  rw [drain]
  split <;> simp_all

theorem drain_of_atRest {s : Machine D} (h : s.work = []) : s.drain = s := by
  rw [drain]
  split
  · rfl
  · rename_i h'
    simp [step?, h] at h'

/-- After draining, nothing is left to be done. -/
theorem work_drain (s : Machine D) : s.drain.work = [] := by
  rw [drain]
  split
  · rename_i h
    unfold step? at h
    split at h
    · assumption
    · simp at h
  · rename_i t h
    have : t.Below s := step?_below h
    exact work_drain t
termination_by (s.text, s.load)
decreasing_by exact this.lex

end Machine

end RequestScheduler
