import Mathlib.Data.List.Induction
import Mathlib.Logic.Relation
import RequestScheduler.Indicator.Script

/-!
# What a script has done with its indicators

Everything here is said of the steps of a script alone. Handles and waiters are counted as they are
made. A clone is akin to the handle it was made of, and a family is a class of handles that are akin
to each other, to any depth of cloning. A family is cancelled when one of its handles was. A handle
that is dropped is one that no later step names.

A waiter is gone once it was dropped or a poll found its family cancelled. Until then it awaits the
cancellation, with the waker of its last poll.
-/

namespace RequestScheduler.Indicators

/-! ### Steps of the past -/

/-- Some step was as `P` says, of the steps before it and of the step itself. -/
def Past (l : List Step) (P : List Step → Step → Prop) : Prop :=
  ∃ before st rest, l = before ++ st :: rest ∧ P before st

section

variable {l : List Step} {st : Step} {P : List Step → Step → Prop}

theorem not_past_nil : ¬Past [] P := by
  rintro ⟨before, st, rest, heq, -⟩
  simp at heq

theorem Past.append (h : Past l P) (more : List Step) : Past (l ++ more) P := by
  obtain ⟨before, st, rest, rfl, hp⟩ := h
  exact ⟨before, st, rest ++ more, by simp, hp⟩

/-- The last step of a script, or one before it. -/
theorem append_eq_iff {before rest : List Step} {x : Step} :
    l ++ [st] = before ++ x :: rest ↔
      (l = before ∧ st = x ∧ rest = []) ∨
        ∃ rest', l = before ++ x :: rest' ∧ rest = rest' ++ [st] := by
  constructor
  · intro heq
    obtain rfl | ⟨rest', y, rfl⟩ := List.eq_nil_or_concat rest
    · obtain ⟨hl, hst⟩ := List.append_inj' heq rfl
      exact .inl ⟨hl, (List.cons.inj hst).1, rfl⟩
    · rw [List.concat_eq_append, ← List.cons_append, ← List.append_assoc] at heq
      obtain ⟨hl, hst⟩ := List.append_inj' heq rfl
      exact .inr ⟨rest', hl, by rw [List.concat_eq_append, (List.cons.inj hst).1]⟩
  · rintro (⟨rfl, rfl, rfl⟩ | ⟨rest', rfl, rfl⟩)
    · rfl
    · simp

theorem past_append : Past (l ++ [st]) P ↔ Past l P ∨ P l st := by
  constructor
  · rintro ⟨before, x, rest, heq, hp⟩
    obtain ⟨rfl, rfl, -⟩ | ⟨rest', rfl, -⟩ := append_eq_iff.mp heq
    · exact .inr hp
    · exact .inl ⟨before, x, rest', rfl, hp⟩
  · rintro (h | hp)
    · exact h.append [st]
    · exact ⟨l, st, [], rfl, hp⟩

end

/-! ### What a script has made -/

/-- How many handles and waiters there are. -/
structure Made where
  handles : Nat := 1
  waiters : Nat := 0

/-- What there is after one more step. Nothing is made of a handle that is not there. -/
def Made.next (m : Made) : Step → Made
  | .new => { m with handles := m.handles + 1 }
  | .clone h => if h < m.handles then { m with handles := m.handles + 1 } else m
  | .wait h => if h < m.handles then { m with waiters := m.waiters + 1 } else m
  | _ => m

/-- What a script has made. -/
def made (l : List Step) : Made := l.foldl Made.next {}

@[simp] theorem made_append (l : List Step) (st : Step) :
    made (l ++ [st]) = (made l).next st := by
  simp [made]

theorem Made.le_next (m : Made) (st : Step) :
    m.handles ≤ (m.next st).handles ∧ m.waiters ≤ (m.next st).waiters := by
  cases st with
  | new => exact ⟨Nat.le_succ _, Nat.le_refl _⟩
  | clone h => by_cases hlt : h < m.handles <;> simp [next, hlt]
  | wait h => by_cases hlt : h < m.handles <;> simp [next, hlt]
  | _ => exact ⟨Nat.le_refl _, Nat.le_refl _⟩

theorem Made.next_handles {m : Made} {st : Step} (hnew : st ≠ .new)
    (hclone : ∀ h, st = .clone h → m.handles ≤ h) : (m.next st).handles = m.handles := by
  cases st with
  | new => exact absurd rfl hnew
  | clone h => rw [next, if_neg (Nat.not_lt.mpr (hclone h rfl))]
  | wait h => by_cases hh : h < m.handles <;> simp [next, hh]
  | _ => rfl

theorem Made.next_waiters {m : Made} {st : Step} (hwait : ∀ h, st = .wait h → m.handles ≤ h) :
    (m.next st).waiters = m.waiters := by
  cases st with
  | wait h => rw [next, if_neg (Nat.not_lt.mpr (hwait h rfl))]
  | clone h => by_cases hh : h < m.handles <;> simp [next, hh]
  | _ => rfl

/-- A waiter is there from before, or is made by this step. -/
theorem Made.lt_next_waiters {m : Made} {st : Step} {w : Nat} (hw : w < (m.next st).waiters) :
    w < m.waiters ∨ ∃ h, st = .wait h ∧ h < m.handles ∧ w = m.waiters := by
  by_cases hmade : ∃ h, st = .wait h ∧ h < m.handles
  · obtain ⟨h, rfl, hh⟩ := hmade
    rw [next, if_pos hh] at hw
    obtain hlt | heq := Nat.lt_succ_iff_lt_or_eq.mp hw
    · exact .inl hlt
    · exact .inr ⟨h, rfl, hh, heq⟩
  · have hwait : ∀ h, st = .wait h → m.handles ≤ h := by
      intro h hst
      exact Nat.not_lt.mp fun hh => hmade ⟨h, hst, hh⟩
    rw [next_waiters hwait] at hw
    exact .inl hw

theorem made_le (l more : List Step) :
    (made l).handles ≤ (made (l ++ more)).handles ∧
      (made l).waiters ≤ (made (l ++ more)).waiters := by
  induction more using List.reverseRecOn with
  | nil => simp
  | append_singleton more st ih =>
      obtain ⟨hhandles, hwaiters⟩ := ih
      obtain ⟨hhandles', hwaiters'⟩ := (made (l ++ more)).le_next st
      rw [← List.append_assoc, made_append]
      exact ⟨Nat.le_trans hhandles hhandles', Nat.le_trans hwaiters hwaiters'⟩

/-! ### Families -/

/-- The handle `h` was made as a clone of `g`. -/
def Cloned (l : List Step) (g h : Nat) : Prop :=
  Past l fun before st => st = .clone g ∧ g < (made before).handles ∧ h = (made before).handles

/-- The handles are of one family. -/
def Akin (l : List Step) : Nat → Nat → Prop := Relation.EqvGen (Cloned l)

/-- The handle on which a step calls for the cancellation. -/
def Step.cancels? : Step → Option Nat
  | .cancel h => some h
  | .race h calls => if calls = 0 then none else some h
  | _ => none

theorem Step.eq_of_cancels {st : Step} {h : Nat} (hst : st.cancels? = some h) :
    st = .cancel h ∨ ∃ calls, st = .race h (calls + 1) := by
  cases st with
  | cancel g => exact .inl (congrArg Step.cancel (Option.some.inj hst))
  | race g calls =>
      cases calls with
      | zero => cases hst
      | succ n =>
          obtain rfl := Option.some.inj hst
          exact .inr ⟨n, rfl⟩
  | _ => cases hst

/-- The cancellation was called for on the handle itself. -/
def Called (l : List Step) (h : Nat) : Prop :=
  Past l fun before st => st.cancels? = some h ∧ h < (made before).handles

/-- The cancellation was called for on a handle of the same family. -/
def Cancelled (l : List Step) (h : Nat) : Prop := ∃ g, Akin l h g ∧ Called l g

section

variable {l : List Step} {st : Step} {g h : Nat}

theorem Cloned.lt (hc : Cloned l g h) : g < (made l).handles ∧ h < (made l).handles := by
  obtain ⟨before, st, rest, rfl, rfl, hg, rfl⟩ := hc
  have hle := (made_le (before ++ [.clone g]) rest).1
  rw [List.append_assoc, List.singleton_append, made_append, Made.next, if_pos hg] at hle
  exact ⟨Nat.lt_trans hg hle, hle⟩

theorem Called.lt (hc : Called l h) : h < (made l).handles := by
  obtain ⟨before, st, rest, rfl, -, hh⟩ := hc
  exact Nat.lt_of_lt_of_le hh (made_le before (st :: rest)).1

theorem Cloned.append (hc : Cloned l g h) (more : List Step) : Cloned (l ++ more) g h :=
  Past.append hc more

theorem Akin.append (hk : Akin l g h) (more : List Step) : Akin (l ++ more) g h :=
  Relation.EqvGen.mono (fun _ _ hc => Cloned.append hc more) _ _ hk

/-- A handle that is not there is akin to itself alone. -/
theorem Akin.lt (hk : Akin l g h) :
    g = h ∨ (g < (made l).handles ∧ h < (made l).handles) := by
  induction hk with
  | rel g h hc => exact .inr hc.lt
  | refl g => exact .inl rfl
  | symm g h _ ih =>
      obtain rfl | ⟨hg, hh⟩ := ih
      · exact .inl rfl
      · exact .inr ⟨hh, hg⟩
  | trans g h k _ _ ih ih' =>
      obtain rfl | ⟨hg, hh⟩ := ih
      · exact ih'
      · obtain rfl | ⟨-, hk⟩ := ih'
        · exact .inr ⟨hg, hh⟩
        · exact .inr ⟨hg, hk⟩

theorem cloned_append : Cloned (l ++ [st]) g h ↔
    Cloned l g h ∨ (st = .clone g ∧ g < (made l).handles ∧ h = (made l).handles) :=
  past_append

theorem akin_append_of_not_clone (hst : ∀ g, st = .clone g → (made l).handles ≤ g) :
    Akin (l ++ [st]) = Akin l := by
  have hcloned : Cloned (l ++ [st]) = Cloned l := by
    funext g h
    refine propext (cloned_append.trans (or_iff_left ?_))
    rintro ⟨heq, hg, -⟩
    exact Nat.not_lt.mpr (hst g heq) hg
  rw [Akin, hcloned, Akin]

theorem called_append :
    Called (l ++ [st]) h ↔ Called l h ∨ (st.cancels? = some h ∧ h < (made l).handles) :=
  past_append

theorem Cancelled.lt (hc : Cancelled l h) : h < (made l).handles := by
  obtain ⟨g, hk, hg⟩ := hc
  obtain rfl | ⟨hh, -⟩ := hk.lt
  · exact hg.lt
  · exact hh

/-- A family that is cancelled was called on for the first time. -/
theorem Cancelled.first (hc : Cancelled l h) : ∃ past st rest g, l = past ++ st :: rest ∧
    st.cancels? = some g ∧ g < (made past).handles ∧ Akin l h g ∧ ¬Cancelled past g := by
  obtain ⟨g, hk, past, st, rest, heq, hst, hg⟩ := hc
  -- the call before this one is in a shorter past
  induction hn : past.length using Nat.strongRecOn generalizing past st rest g with
  | ind n ih =>
      by_cases hbefore : Cancelled past g
      · obtain ⟨g', hk', past', st', rest', rfl, hst', hg'⟩ := hbefore
        have hshort : past'.length < n := by
          rw [← hn, List.length_append]
          exact Nat.lt_add_of_pos_right (Nat.succ_pos _)
        have hk'' : Akin l g g' := heq ▸ hk'.append (st :: rest)
        exact ih _ hshort g' (hk.trans _ _ _ hk'') past' st' (rest' ++ st :: rest)
          (by simp [heq]) hst' hg' rfl
      · exact ⟨past, st, rest, g, heq, hst, hg, hk, hbefore⟩

end

/-! ### Waiters -/

/-- The waiter was made for the handle. -/
def Posted (l : List Step) (w h : Nat) : Prop :=
  Past l fun before st => st = .wait h ∧ h < (made before).handles ∧ w = (made before).waiters

/-- The waiter was dropped, or a poll has found its family cancelled. -/
def Gone (l : List Step) (w : Nat) : Prop :=
  Past l fun before st => (st = .dropWaiter w ∧ w < (made before).waiters) ∨
    ∃ k h, st = .poll w k ∧ Posted before w h ∧ Cancelled before h

/-- The waiter is there. -/
def Live (l : List Step) (w : Nat) : Prop := w < (made l).waiters ∧ ¬Gone l w

/-- The last poll of the waiter had the waker `k`, and its family was not cancelled then. -/
def Asked (l : List Step) (w k : Nat) : Prop :=
  ∃ before rest, l = before ++ .poll w k :: rest ∧
    (∃ h, Posted before w h ∧ ¬Cancelled before h) ∧ ∀ st ∈ rest, ∀ k', st ≠ .poll w k'

/-- The waiter is there and was last polled pending, with the waker `k`. -/
def Awaits (l : List Step) (w k : Nat) : Prop := Live l w ∧ Asked l w k

section

variable {l : List Step} {st : Step} {w k h : Nat}

theorem Posted.lt (hp : Posted l w h) : w < (made l).waiters ∧ h < (made l).handles := by
  obtain ⟨before, st, rest, rfl, rfl, hh, rfl⟩ := hp
  have hle := made_le (before ++ [.wait h]) rest
  rw [List.append_assoc, List.singleton_append, made_append, Made.next, if_pos hh] at hle
  exact ⟨hle.2, Nat.lt_of_lt_of_le hh hle.1⟩

theorem posted_append : Posted (l ++ [st]) w h ↔
    Posted l w h ∨ (st = .wait h ∧ h < (made l).handles ∧ w = (made l).waiters) :=
  past_append

/-- Every waiter was made for one handle. -/
theorem existsUnique_posted (hw : w < (made l).waiters) : ∃! h, Posted l w h := by
  induction l using List.reverseRecOn with
  | nil => exact absurd hw (Nat.not_lt_zero w)
  | append_singleton l st ih =>
      rw [made_append] at hw
      obtain hold | ⟨h, rfl, hh, rfl⟩ := Made.lt_next_waiters hw
      · obtain ⟨h, hp, huniq⟩ := ih hold
        refine ⟨h, posted_append.mpr (.inl hp), fun h' hp' => ?_⟩
        obtain hp' | ⟨-, -, rfl⟩ := posted_append.mp hp'
        · exact huniq h' hp'
        · exact absurd hold (Nat.lt_irrefl _)
      · refine ⟨h, posted_append.mpr (.inr ⟨rfl, hh, rfl⟩), fun h' hp' => ?_⟩
        obtain hp' | ⟨heq, -, -⟩ := posted_append.mp hp'
        · exact absurd hp'.lt.1 (Nat.lt_irrefl _)
        · exact (Step.wait.inj heq).symm

theorem gone_append : Gone (l ++ [st]) w ↔ Gone l w ∨ (st = .dropWaiter w ∧ w < (made l).waiters) ∨
    ∃ k h, st = .poll w k ∧ Posted l w h ∧ Cancelled l h :=
  past_append

theorem gone_append_of_stays (hdrop : st ≠ .dropWaiter w) (hpoll : ∀ k, st ≠ .poll w k) :
    Gone (l ++ [st]) w ↔ Gone l w := by
  refine gone_append.trans (or_iff_left ?_)
  rintro (⟨hst, -⟩ | ⟨k, h, hst, -⟩)
  · exact hdrop hst
  · exact hpoll k hst

theorem Asked.lt (ha : Asked l w k) : w < (made l).waiters := by
  obtain ⟨before, rest, rfl, ⟨h, hp, -⟩, -⟩ := ha
  exact Nat.lt_of_lt_of_le hp.lt.1 (made_le before _).2

theorem asked_append_poll {k' : Nat} : Asked (l ++ [.poll w k']) w k ↔
    k = k' ∧ ∃ h, Posted l w h ∧ ¬Cancelled l h := by
  constructor
  · rintro ⟨before, rest, heq, hp, hlast⟩
    obtain ⟨rfl, hst, -⟩ | ⟨rest', rfl, rfl⟩ := append_eq_iff.mp heq
    · exact ⟨(Step.poll.inj hst).2.symm, hp⟩
    · exact absurd rfl (hlast _ (by simp) k')
  · rintro ⟨rfl, hp⟩
    exact ⟨l, [], rfl, hp, by simp⟩

theorem asked_append_of_not_poll (hst : ∀ k', st ≠ .poll w k') :
    Asked (l ++ [st]) w k ↔ Asked l w k := by
  constructor
  · rintro ⟨before, rest, heq, hp, hlast⟩
    obtain ⟨-, heq', -⟩ | ⟨rest', rfl, rfl⟩ := append_eq_iff.mp heq
    · exact absurd heq' (hst k)
    · exact ⟨before, rest', rfl, hp, fun x hx => hlast x (List.mem_append_left _ hx)⟩
  · rintro ⟨before, rest, rfl, hp, hlast⟩
    refine ⟨before, rest ++ [st], by simp, hp, fun x hx => ?_⟩
    obtain hx | hx := List.mem_append.mp hx
    · exact hlast x hx
    · obtain rfl := List.mem_singleton.mp hx
      exact hst

end

end RequestScheduler.Indicators
