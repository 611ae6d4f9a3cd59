import RequestScheduler.Places
import RequestScheduler.Proofs.Kinship

/-!
# What one step does to the indicators

The flag of an indicator elects the call that wins, and its token keeps those who wait. The two are
set together, by one call. A step acts on one indicator at most, and there are few ways in which it
does; each of them is listed with the answer that goes with it.
-/

namespace RequestScheduler

namespace Indicator

open CancellationToken (isCancelled waker?)

variable {T : Type} [CancellationToken T] {d : Indicator T}

/-- The token is cancelled exactly if the flag is set. -/
def Agrees (d : Indicator T) : Prop := isCancelled d.token = d.flag

variable [LawfulToken T]

theorem agrees_new : (new : Indicator T).Agrees := LawfulToken.isCancelled_fresh

theorem Agrees.cancel (h : d.Agrees) : d.cancel.2.2.Agrees := by
  cases hflag : d.flag with
  | true => rwa [cancel_of_flag hflag]
  | false =>
      simp only [Indicator.cancel, hflag, Agrees]
      exact LawfulToken.isCancelled_cancel d.token

theorem Agrees.poll (h : d.Agrees) (waiter waker : Nat) : (d.poll waiter waker).2.Agrees :=
  (LawfulToken.isCancelled_poll waiter waker d.token).trans h

theorem Agrees.leave (h : d.Agrees) (waiter : Nat) : (d.leave waiter).Agrees :=
  (LawfulToken.isCancelled_leave waiter d.token).trans h

/-- A poll is ready exactly if the flag is set. -/
theorem Agrees.fst_poll (h : d.Agrees) (waiter waker : Nat) :
    (d.poll waiter waker).1 = d.flag :=
  (LawfulToken.fst_poll waiter waker d.token).trans h

theorem Agrees.waker?_poll (h : d.Agrees) (hclear : d.flag = false) (waiter waker w : Nat) :
    waker? (d.poll waiter waker).2.token w =
      if w = waiter then some waker else waker? d.token w :=
  LawfulToken.waker?_poll waiter waker d.token w (h.trans hclear)

/-- The call that sets the flag wakes whoever waits, once and with the waker that it left last. -/
theorem Agrees.woken_cancel (h : d.Agrees) (hclear : d.flag = false) :
    ∃ pairs : List (Nat × Nat), (pairs.map Prod.fst).Nodup ∧ d.cancel.2.1 = pairs.map Prod.snd ∧
      ∀ w k, (w, k) ∈ pairs ↔ waker? d.token w = some k := by
  rw [Indicator.cancel, hclear]
  exact LawfulToken.woken_cancel d.token (h.trans hclear)

end Indicator

namespace Indicators

/-- How many calls of a step have won, by its answer. -/
def Step.winners? : Step → Answer → Option Nat
  | .cancel _, .flag b => some b.toNat
  | .race _ _, .number n => some n
  | _, _ => none

/-! ### What a step does -/

variable {T : Type} [CancellationToken T]

/-- Handles and waiters name indicators that are there, and the two halves of each agree. -/
structure Sound (s : Indicators T) : Prop where
  handle : ∀ i ∈ s.handles, i < s.family.length
  waiter : ∀ i, some i ∈ s.waiters → i < s.family.length
  agrees : ∀ d ∈ s.family, d.Agrees

/-- The step names what is not there, or has nothing to do. -/
def Ignores (s : Indicators T) : Step → Prop
  | .new => False
  | .clone h | .cancel h | .isCancelled h | .wait h => s.handles[h]? = none
  | .race h calls => calls = 0 ∨ s.handles[h]? = none
  | .poll w _ | .dropWaiter w => (s.waiters[w]?).join = none
  | .unknown => True

/-- What a step may do: its answer, the wakers that it wakes, and what it leaves. -/
inductive Does (s : Indicators T) : Step → Answer → List Nat → Indicators T → Prop where
  | new : Does s .new (.number s.handles.length) [] s.make
  | clone {h i : Nat} (hi : s.handles[h]? = some i) :
      Does s (.clone h) (.number s.handles.length) [] (s.clone i)
  | cancel {st : Step} {a : Answer} {h i : Nat} {d : Indicator T} (hst : st.cancels? = some h)
      (hi : s.handles[h]? = some i) (hd : s.family[i]? = some d)
      (ha : st.winners? a = some (!d.flag).toNat) :
      Does s st a d.cancel.2.1 (s.put i d.cancel.2.2)
  | asks {h i : Nat} {d : Indicator T} (hi : s.handles[h]? = some i) (hd : s.family[i]? = some d) :
      Does s (.isCancelled h) (.flag d.flag) [] s
  | wait {h i : Nat} (hi : s.handles[h]? = some i) :
      Does s (.wait h) (.number s.waiters.length) [] (s.wait i)
  | pending {w k i : Nat} {d : Indicator T} (hw : s.waiters[w]? = some (some i))
      (hd : s.family[i]? = some d) (hclear : d.flag = false) :
      Does s (.poll w k) .pending [] (s.put i (d.poll w k).2)
  | ready {w k i : Nat} {d : Indicator T} (hw : s.waiters[w]? = some (some i))
      (hd : s.family[i]? = some d) (hset : d.flag = true) :
      Does s (.poll w k) .ready [] (s.forget w)
  | drop {w i : Nat} {d : Indicator T} (hw : s.waiters[w]? = some (some i))
      (hd : s.family[i]? = some d) :
      Does s (.dropWaiter w) (.flag true) [] ((s.put i (d.leave w)).forget w)
  | idle {st : Step} {a : Answer} (hst : s.Ignores st) (ha : st.winners? a ≠ some 1) :
      Does s st a [] s

section

variable {s s' : Indicators T} {st : Step} {a : Answer} {woken : List Nat}

theorem Sound.ofHandle?_cases (hs : s.Sound) (h : Nat) :
    (s.handles[h]? = none ∧ s.ofHandle? h = none) ∨
    ∃ i d, s.handles[h]? = some i ∧ s.family[i]? = some d ∧ s.ofHandle? h = some (i, d) := by
  cases hi : s.handles[h]? with
  | none => exact .inl ⟨rfl, by simp [ofHandle?, hi]⟩
  | some i =>
      have hd := List.getElem?_eq_getElem (hs.handle i (List.mem_of_getElem? hi))
      exact .inr ⟨i, _, rfl, hd, by simp [ofHandle?, hi, hd]⟩

theorem Sound.ofWaiter?_cases (hs : s.Sound) (w : Nat) :
    ((s.waiters[w]?).join = none ∧ s.ofWaiter? w = none) ∨
    ∃ i d, s.waiters[w]? = some (some i) ∧ s.family[i]? = some d ∧ s.ofWaiter? w = some (i, d) := by
  cases hi : (s.waiters[w]?).join with
  | none => exact .inl ⟨rfl, by simp [ofWaiter?, hi]⟩
  | some i =>
      have hw : s.waiters[w]? = some (some i) := Option.join_eq_some_iff.mp hi
      have hd := List.getElem?_eq_getElem (hs.waiter i (List.mem_of_getElem? hw))
      exact .inr ⟨i, _, hw, hd, by simp [ofWaiter?, hi, hd]⟩

/-- Every step does one of these things. -/
theorem Sound.does [LawfulToken T] (hs : s.Sound) (st : Step) :
    s.Does st (s.perform st).1 (s.perform st).2.1 (s.perform st).2.2 := by
  cases st with
  | new => exact .new
  | clone h =>
      obtain ⟨hi, ho⟩ | ⟨i, d, hi, -, ho⟩ := hs.ofHandle?_cases h
      · simp only [perform, ho]
        exact .idle hi (by simp [Step.winners?])
      · simp only [perform, ho]
        exact .clone hi
  | cancel h =>
      obtain ⟨hi, ho⟩ | ⟨i, d, hi, hd, ho⟩ := hs.ofHandle?_cases h
      · simp only [perform, ho]
        exact .idle hi (by simp [Step.winners?])
      · simp only [perform, ho]
        exact .cancel rfl hi hd (congrArg (fun b => some (Bool.toNat b)) d.fst_cancel)
  | race h calls =>
      obtain ⟨hi, ho⟩ | ⟨i, d, hi, hd, ho⟩ := hs.ofHandle?_cases h
      · simp only [perform, ho]
        exact .idle (.inr hi) (by simp [Step.winners?])
      · cases calls with
        | zero =>
            simp only [perform, ho, Indicator.race, put, set_of_getElem? hd]
            exact .idle (.inl rfl) (by simp [Step.winners?])
        | succ n =>
            simp only [perform, ho, Indicator.race_succ]
            exact .cancel rfl hi hd (congrArg (fun b => some (Bool.toNat b)) d.fst_cancel)
  | isCancelled h =>
      obtain ⟨hi, ho⟩ | ⟨i, d, hi, hd, ho⟩ := hs.ofHandle?_cases h
      · simp only [perform, ho]
        exact .idle hi (by simp [Step.winners?])
      · simp only [perform, ho]
        exact .asks hi hd
  | wait h =>
      obtain ⟨hi, ho⟩ | ⟨i, d, hi, -, ho⟩ := hs.ofHandle?_cases h
      · simp only [perform, ho]
        exact .idle hi (by simp [Step.winners?])
      · simp only [perform, ho]
        exact .wait hi
  | poll w k =>
      obtain ⟨hw, ho⟩ | ⟨i, d, hw, hd, ho⟩ := hs.ofWaiter?_cases w
      · simp only [perform, ho]
        exact .idle hw (by simp [Step.winners?])
      · have hready := (hs.agrees d (List.mem_of_getElem? hd)).fst_poll w k
        obtain ⟨b, d', hpoll⟩ : ∃ b d', d.poll w k = (b, d') := ⟨_, _, rfl⟩
        rw [hpoll] at hready
        simp only [perform, ho, hpoll]
        cases b with
        | true => exact .ready hw hd hready.symm
        | false =>
            have hdoes := Does.pending (k := k) hw hd hready.symm
            rwa [hpoll] at hdoes
  | dropWaiter w =>
      obtain ⟨hw, ho⟩ | ⟨i, d, hw, hd, ho⟩ := hs.ofWaiter?_cases w
      · simp only [perform, ho]
        exact .idle hw (by simp [Step.winners?])
      · simp only [perform, ho]
        exact .drop hw hd
  | unknown => exact .idle trivial (by simp [Step.winners?])

/-! ### Names keep their meaning -/

/-- What a step does to the handles. -/
theorem Does.handles_cases (hdoes : s.Does st a woken s') :
    (st = .new ∧ s'.handles = s.handles ++ [s.family.length]) ∨
    (∃ h i, st = .clone h ∧ s.handles[h]? = some i ∧ s'.handles = s.handles ++ [i]) ∨
    (s'.handles = s.handles ∧ st ≠ .new ∧ ∀ h, st = .clone h → s.handles[h]? = none) := by
  cases hdoes with
  | new => exact .inl ⟨rfl, rfl⟩
  | clone hi => exact .inr (.inl ⟨_, _, rfl, hi, rfl⟩)
  | cancel hst =>
      obtain rfl | ⟨_, rfl⟩ := Step.eq_of_cancels hst <;>
      exact .inr (.inr ⟨rfl, by simp, by simp⟩)
  | idle hst =>
      refine .inr (.inr ⟨rfl, ?_, ?_⟩)
      · rintro rfl
        exact hst
      · rintro h rfl
        exact hst
  | _ => exact .inr (.inr ⟨rfl, by simp, by simp⟩)

/-- What a step does to the waiters. -/
theorem Does.waiters_cases (hdoes : s.Does st a woken s') :
    (∃ h i, st = .wait h ∧ s.handles[h]? = some i ∧ s'.waiters = s.waiters ++ [some i]) ∨
    ((∀ h, st = .wait h → s.handles[h]? = none) ∧
      (s'.waiters = s.waiters ∨ ∃ w, s'.waiters = s.waiters.set w none)) := by
  cases hdoes with
  | wait hi => exact .inl ⟨_, _, rfl, hi, rfl⟩
  | cancel hst =>
      obtain rfl | ⟨_, rfl⟩ := Step.eq_of_cancels hst <;> exact .inr ⟨by simp, .inl rfl⟩
  | ready => exact .inr ⟨by simp, .inr ⟨_, rfl⟩⟩
  | drop => exact .inr ⟨by simp, .inr ⟨_, rfl⟩⟩
  | idle hst =>
      refine .inr ⟨?_, .inl rfl⟩
      rintro h rfl
      exact hst
  | _ => exact .inr ⟨by simp, .inl rfl⟩

/-- A handle names the same indicator from then on. -/
theorem Does.handles_grow (hdoes : s.Does st a woken s') : s.handles <+: s'.handles := by
  obtain ⟨-, heq⟩ | ⟨_, _, -, -, heq⟩ | ⟨heq, -⟩ := hdoes.handles_cases
  · exact ⟨_, heq.symm⟩
  · exact ⟨_, heq.symm⟩
  · exact heq ▸ List.prefix_refl _

theorem Ignores.handle_of_cancels {h : Nat} (hst : s.Ignores st) (hc : st.cancels? = some h) :
    s.handles[h]? = none := by
  obtain rfl | ⟨calls, rfl⟩ := Step.eq_of_cancels hc
  · exact hst
  · exact hst.resolve_left (Nat.succ_ne_zero calls)

/-- An indicator that takes the place of one with the same flag changes no flag. -/
theorem flag_put {i j : Nat} {d e f : Indicator T} (hf : (s.put i d).family[j]? = some f)
    (he : s.family[i]? = some e) (hflag : d.flag = e.flag) :
    ∃ e, s.family[j]? = some e ∧ f.flag = e.flag := by
  obtain ⟨rfl, rfl⟩ | ⟨-, hf⟩ := getElem?_set_cases hf
  · exact ⟨e, he, hflag⟩
  · exact ⟨f, hf, rfl⟩

/-- What a step does to the flags. Nothing else sets a flag than a call for the cancellation. -/
theorem Does.flag_cases (hdoes : s.Does st a woken s') {i : Nat} {d : Indicator T}
    (hd : s'.family[i]? = some d) :
    (i = s.family.length ∧ d = .new ∧ st = .new) ∨
    (d.flag = true ∧ ∃ h, st.cancels? = some h ∧ s.handles[h]? = some i) ∨
    ((∃ e, s.family[i]? = some e ∧ d.flag = e.flag) ∧
      ∀ h, st.cancels? = some h → s.handles[h]? ≠ some i) := by
  cases hdoes with
  | new =>
      obtain ⟨hi, hnew⟩ | hd := getElem?_concat_cases hd
      · exact .inl ⟨hi, hnew, rfl⟩
      · exact .inr (.inr ⟨⟨d, hd, rfl⟩, by simp [Step.cancels?]⟩)
  | cancel hst hi _ =>
      obtain ⟨rfl, rfl⟩ | ⟨hne, hd⟩ := getElem?_set_cases hd
      · exact .inr (.inl ⟨Indicator.flag_cancel _, _, hst, hi⟩)
      · refine .inr (.inr ⟨⟨d, hd, rfl⟩, ?_⟩)
        intro h hst' hi'
        obtain rfl := Option.some.inj (hst.symm.trans hst')
        exact hne (Option.some.inj (hi'.symm.trans hi))
  | pending _ he => exact .inr (.inr ⟨flag_put hd he rfl, by simp [Step.cancels?]⟩)
  | drop _ he => exact .inr (.inr ⟨flag_put hd he rfl, by simp [Step.cancels?]⟩)
  | idle hst =>
      refine .inr (.inr ⟨⟨d, hd, rfl⟩, ?_⟩)
      intro h hc
      simp [hst.handle_of_cancels hc]
  | _ => exact .inr (.inr ⟨⟨d, hd, rfl⟩, by simp [Step.cancels?]⟩)

/-! ### What is there stays sound -/

theorem sound_start [LawfulToken T] : Sound ({} : Indicators T) where
  handle i hi := by simp [List.mem_singleton.mp hi]
  waiter i hi := by simp at hi
  agrees d hd := List.mem_singleton.mp hd ▸ Indicator.agrees_new

theorem Sound.put (hs : s.Sound) (i : Nat) {d : Indicator T} (hd : d.Agrees) :
    (s.put i d).Sound where
  handle j hj := by simpa [Indicators.put] using hs.handle j hj
  waiter j hj := by simpa [Indicators.put] using hs.waiter j hj
  agrees d' hd' := by
    obtain hmem | rfl := List.mem_or_eq_of_mem_set hd'
    · exact hs.agrees d' hmem
    · exact hd

theorem Sound.make [LawfulToken T] (hs : s.Sound) : s.make.Sound where
  handle j hj := by
    rw [Indicators.make, List.length_append]
    obtain hmem | hmem := List.mem_append.mp hj
    · exact Nat.lt_succ_of_lt (hs.handle j hmem)
    · exact List.mem_singleton.mp hmem ▸ Nat.lt_succ_self _
  waiter j hj := by
    rw [Indicators.make, List.length_append]
    exact Nat.lt_succ_of_lt (hs.waiter j hj)
  agrees d hd := by
    obtain hmem | hmem := List.mem_append.mp hd
    · exact hs.agrees d hmem
    · exact List.mem_singleton.mp hmem ▸ Indicator.agrees_new

theorem Sound.clone (hs : s.Sound) {i : Nat} (hi : i < s.family.length) : (s.clone i).Sound where
  handle j hj := by
    obtain hmem | hmem := List.mem_append.mp hj
    · exact hs.handle j hmem
    · exact List.mem_singleton.mp hmem ▸ hi
  waiter := hs.waiter
  agrees := hs.agrees

theorem Sound.wait (hs : s.Sound) {i : Nat} (hi : i < s.family.length) : (s.wait i).Sound where
  handle := hs.handle
  waiter j hj := by
    obtain hmem | hmem := List.mem_append.mp hj
    · exact hs.waiter j hmem
    · exact Option.some.inj (List.mem_singleton.mp hmem) ▸ hi
  agrees := hs.agrees

theorem Sound.forget (hs : s.Sound) (w : Nat) : (s.forget w).Sound where
  handle := hs.handle
  waiter j hj := by
    obtain hmem | heq := List.mem_or_eq_of_mem_set hj
    · exact hs.waiter j hmem
    · cases heq
  agrees := hs.agrees

theorem Sound.of_does [LawfulToken T] (hs : s.Sound) (hdoes : s.Does st a woken s') :
    s'.Sound := by
  cases hdoes with
  | new => exact hs.make
  | clone hi => exact hs.clone (hs.handle _ (List.mem_of_getElem? hi))
  | cancel _ _ hd => exact hs.put _ (hs.agrees _ (List.mem_of_getElem? hd)).cancel
  | asks => exact hs
  | wait hi => exact hs.wait (hs.handle _ (List.mem_of_getElem? hi))
  | pending _ hd =>
      exact hs.put _ ((hs.agrees _ (List.mem_of_getElem? hd)).poll _ _)
  | ready => exact hs.forget _
  | drop _ hd => exact (hs.put _ ((hs.agrees _ (List.mem_of_getElem? hd)).leave _)).forget _
  | idle => exact hs

end

end Indicators

end RequestScheduler
