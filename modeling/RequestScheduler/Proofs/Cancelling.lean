import RequestScheduler.Proofs.Waking

/-!
# Flags and waiters follow the script

What the indicators hold after a script is what its steps say: which handles name one indicator,
which flags are set, which waiters are there and whose waker is left with which token. This is true
at the start, and whatever a step does keeps it, clause by clause.
-/

namespace RequestScheduler.Indicators

open CancellationToken (waker?)

variable {T : Type} [CancellationToken T]

/-- The indicators are as the steps of a script say. A waiter that is there belongs to the indicator
of the handle that it was made for, and a token that is not cancelled has the wakers of those who
wait for its indicator and were polled. -/
structure Follows (l : List Step) (s : Indicators T) : Prop where
  handles : s.handles.length = (made l).handles
  waiters : s.waiters.length = (made l).waiters
  akin : ∀ g h : Nat, g < s.handles.length → h < s.handles.length →
    (Akin l g h ↔ s.handles[g]? = s.handles[h]?)
  flag : ∀ (i : Nat) (d : Indicator T), s.family[i]? = some d →
    (d.flag = true ↔ ∃ g : Nat, s.handles[g]? = some i ∧ Called l g)
  home : ∀ w i h : Nat, s.waiters[w]? = some (some i) → Posted l w h → s.handles[h]? = some i
  gone : ∀ w : Nat, Gone l w ↔ s.waiters[w]? = some none
  waker : ∀ (i : Nat) (d : Indicator T), s.family[i]? = some d → d.flag = false → ∀ w k : Nat,
    (waker? d.token w = some k ↔ s.waiters[w]? = some (some i) ∧ Asked l w k)

section

variable {l : List Step} {s s' : Indicators T} {st : Step} {a : Answer} {woken : List Nat}

theorem follows_start [LawfulToken T] : Follows [] ({} : Indicators T) where
  handles := rfl
  waiters := rfl
  akin g h hg hh := by
    obtain rfl : g = 0 := Nat.lt_one_iff.mp hg
    obtain rfl : h = 0 := Nat.lt_one_iff.mp hh
    exact iff_of_true (.refl 0) rfl
  flag i d hd := by
    obtain rfl : d = .new := List.mem_singleton.mp (List.mem_of_getElem? hd)
    refine iff_of_false Bool.false_ne_true ?_
    rintro ⟨g, -, hg⟩
    exact not_past_nil hg
  home w i h hw := by simp at hw
  gone w := iff_of_false not_past_nil (by simp)
  waker i d hd _ w k := by
    obtain rfl : d = .new := List.mem_singleton.mp (List.mem_of_getElem? hd)
    exact iff_of_false (by simp [Indicator.new, LawfulToken.waker?_fresh]) (by simp)

/-! ### What the state says of the script -/

theorem Follows.lt_iff (hf : Follows l s) {h : Nat} :
    h < (made l).handles ↔ ∃ i, s.handles[h]? = some i := by
  rw [← hf.handles]
  constructor
  · intro hh
    exact ⟨_, List.getElem?_eq_getElem hh⟩
  · rintro ⟨i, hi⟩
    exact (List.getElem?_eq_some_iff.mp hi).1

theorem Follows.le_of_none (hf : Follows l s) {h : Nat} (hnone : s.handles[h]? = none) :
    (made l).handles ≤ h :=
  hf.handles ▸ List.getElem?_eq_none_iff.mp hnone

/-- The flag of a handle is set exactly if its family was cancelled. -/
theorem Follows.flag_iff (hf : Follows l s) {h i : Nat} {d : Indicator T}
    (hi : s.handles[h]? = some i) (hd : s.family[i]? = some d) :
    d.flag = true ↔ Cancelled l h := by
  have hh : h < s.handles.length := (List.getElem?_eq_some_iff.mp hi).1
  rw [hf.flag i d hd]
  constructor
  · rintro ⟨g, hg, hcalled⟩
    exact ⟨g, (hf.akin h g hh (List.getElem?_eq_some_iff.mp hg).1).mpr (hi.trans hg.symm), hcalled⟩
  · rintro ⟨g, hk, hcalled⟩
    have hg : g < s.handles.length := hf.handles ▸ hcalled.lt
    exact ⟨g, ((hf.akin h g hh hg).mp hk).symm.trans hi, hcalled⟩

/-- A waiter that is there waits for the indicator of the handle that it was made for. -/
theorem Follows.posted (hf : Follows l s) {w i : Nat} (hw : s.waiters[w]? = some (some i)) :
    ∃ h, Posted l w h ∧ s.handles[h]? = some i := by
  have hlt : w < (made l).waiters := hf.waiters ▸ (List.getElem?_eq_some_iff.mp hw).1
  obtain ⟨h, hp, -⟩ := existsUnique_posted hlt
  exact ⟨h, hp, hf.home w i h hw hp⟩

theorem Follows.flag_iff_posted (hf : Follows l s) {w i h : Nat} {d : Indicator T}
    (hw : s.waiters[w]? = some (some i)) (hd : s.family[i]? = some d) (hp : Posted l w h) :
    d.flag = true ↔ Cancelled l h :=
  hf.flag_iff (hf.home w i h hw hp) hd

theorem Follows.live_iff (hf : Follows l s) {w : Nat} :
    Live l w ↔ ∃ i, s.waiters[w]? = some (some i) := by
  rw [Live, hf.gone w, ← hf.waiters]
  constructor
  · rintro ⟨hlt, hnone⟩
    obtain ⟨o, ho⟩ : ∃ o, s.waiters[w]? = some o := ⟨_, List.getElem?_eq_getElem hlt⟩
    cases o with
    | none => exact absurd ho hnone
    | some i => exact ⟨i, ho⟩
  · rintro ⟨i, hi⟩
    exact ⟨(List.getElem?_eq_some_iff.mp hi).1, by simp [hi]⟩

/-! ### What one more step changes -/

theorem Follows.length_handles (hf : Follows l s) (hdoes : s.Does st a woken s') :
    s'.handles.length = (made (l ++ [st])).handles := by
  rw [made_append]
  obtain ⟨rfl, heq⟩ | ⟨h, i, rfl, hi, heq⟩ | ⟨heq, hnew, hclone⟩ := hdoes.handles_cases
  · rw [heq, List.length_append, hf.handles, Made.next, List.length_singleton]
  · rw [heq, List.length_append, hf.handles, Made.next, if_pos (hf.lt_iff.mpr ⟨i, hi⟩),
      List.length_singleton]
  · rw [heq, hf.handles, Made.next_handles hnew fun h hst => hf.le_of_none (hclone h hst)]

theorem Follows.length_waiters (hf : Follows l s) (hdoes : s.Does st a woken s') :
    s'.waiters.length = (made (l ++ [st])).waiters := by
  rw [made_append]
  obtain ⟨h, i, rfl, hi, heq⟩ | ⟨hwait, heq⟩ := hdoes.waiters_cases
  · rw [heq, List.length_append, hf.waiters, Made.next, if_pos (hf.lt_iff.mpr ⟨i, hi⟩),
      List.length_singleton]
  · rw [Made.next_waiters fun h hst => hf.le_of_none (hwait h hst), ← hf.waiters]
    obtain heq | ⟨w, heq⟩ := heq
    · rw [heq]
    · rw [heq, List.length_set]

/-- The clone of a handle joins the family of the handle. -/
theorem Follows.akin_clone (hf : Follows l s) {c i g h : Nat} (hc : s.handles[c]? = some i)
    (hg : g < s.handles.length + 1) (hh : h < s.handles.length + 1) :
    Akin (l ++ [.clone c]) g h ↔ (s.handles ++ [i])[g]? = (s.handles ++ [i])[h]? := by
  have hlt : c < s.handles.length := (List.getElem?_eq_some_iff.mp hc).1
  have hnew : (s.handles ++ [i])[s.handles.length]? = some i := List.getElem?_concat_length
  have hold : ∀ g : Nat, g < s.handles.length → (s.handles ++ [i])[g]? = s.handles[g]? :=
    fun g hg => List.getElem?_append_left hg
  constructor
  · -- to name the same indicator is an equivalence, and a clone names that of its handle
    have hequiv : Equivalence fun g h : Nat =>
        (s.handles ++ [i])[g]? = (s.handles ++ [i])[h]? :=
      ⟨fun _ => rfl, Eq.symm, Eq.trans⟩
    intro hk
    refine hequiv.eqvGen_iff.mp (Relation.EqvGen.mono ?_ g h hk)
    intro g h hcloned
    obtain hcloned | ⟨heq, -, rfl⟩ := cloned_append.mp hcloned
    · have hg : g < s.handles.length := hf.handles ▸ hcloned.lt.1
      have hh : h < s.handles.length := hf.handles ▸ hcloned.lt.2
      rw [hold g hg, hold h hh]
      exact (hf.akin g h hg hh).mp (.rel g h hcloned)
    · obtain rfl := Step.clone.inj heq
      rw [← hf.handles, hnew, hold c hlt, hc]
  · -- a handle of the same indicator is akin to the one that was cloned
    have hakin : ∀ g : Nat, g < s.handles.length → s.handles[g]? = some i →
        Akin (l ++ [.clone c]) g s.handles.length := by
      intro g hg hi
      have hgc : Akin l g c := (hf.akin g c hg hlt).mpr (hi.trans hc.symm)
      have hcn : Cloned (l ++ [.clone c]) c s.handles.length :=
        cloned_append.mpr (.inr ⟨rfl, hf.handles ▸ hlt, hf.handles⟩)
      exact (hgc.append _).trans _ _ _ (.rel _ _ hcn)
    intro heq
    obtain hg | rfl := Nat.lt_succ_iff_lt_or_eq.mp hg <;>
    obtain hh | rfl := Nat.lt_succ_iff_lt_or_eq.mp hh
    · rw [hold g hg, hold h hh] at heq
      exact ((hf.akin g h hg hh).mpr heq).append _
    · rw [hold g hg, hnew] at heq
      exact hakin g hg heq
    · rw [hold h hh, hnew] at heq
      exact (hakin h hh heq.symm).symm _ _
    · exact .refl _

/-- The handle of a new indicator has a family of its own. -/
theorem Follows.akin_new (hf : Follows l s) (hs : s.Sound) {g h : Nat}
    (hg : g < s.handles.length + 1) (hh : h < s.handles.length + 1) :
    Akin (l ++ [.new]) g h ↔
      (s.handles ++ [s.family.length])[g]? = (s.handles ++ [s.family.length])[h]? := by
  have hnew : (s.handles ++ [s.family.length])[s.handles.length]? = some s.family.length :=
    List.getElem?_concat_length
  have hold : ∀ g : Nat, g < s.handles.length →
      (s.handles ++ [s.family.length])[g]? = s.handles[g]? :=
    fun g hg => List.getElem?_append_left hg
  have hstranger : ∀ g < s.handles.length, ¬Akin l g s.handles.length := by
    intro g hg hk
    obtain rfl | ⟨-, hlt⟩ := hk.lt
    · exact Nat.lt_irrefl _ hg
    · exact Nat.lt_irrefl _ (hf.handles ▸ hlt)
  have hother : ∀ g : Nat, s.handles[g]? ≠ some s.family.length := by
    intro g hi
    exact Nat.lt_irrefl _ (hs.handle _ (List.mem_of_getElem? hi))
  rw [akin_append_of_not_clone (by simp)]
  obtain hg | rfl := Nat.lt_succ_iff_lt_or_eq.mp hg <;>
  obtain hh | rfl := Nat.lt_succ_iff_lt_or_eq.mp hh
  · rw [hold g hg, hold h hh]
    exact hf.akin g h hg hh
  · rw [hold g hg, hnew]
    exact iff_of_false (hstranger g hg) (hother g)
  · rw [hold h hh, hnew]
    exact iff_of_false (fun hk => hstranger h hh (hk.symm _ _)) (Ne.symm (hother h))
  · exact iff_of_true (.refl _) rfl

theorem Follows.akin_does (hf : Follows l s) (hs : s.Sound) (hdoes : s.Does st a woken s')
    {g h : Nat} (hg : g < s'.handles.length) (hh : h < s'.handles.length) :
    Akin (l ++ [st]) g h ↔ s'.handles[g]? = s'.handles[h]? := by
  obtain ⟨rfl, heq⟩ | ⟨c, i, rfl, hi, heq⟩ | ⟨heq, hnew, hclone⟩ := hdoes.handles_cases
  · rw [heq, List.length_append] at hg hh
    rw [heq]
    exact hf.akin_new hs hg hh
  · rw [heq, List.length_append] at hg hh
    rw [heq]
    exact hf.akin_clone hi hg hh
  · rw [heq] at hg hh ⊢
    rw [akin_append_of_not_clone fun c hst => hf.le_of_none (hclone c hst)]
    exact hf.akin g h hg hh

theorem Follows.home_does (hf : Follows l s) (hdoes : s.Does st a woken s') {w i h : Nat}
    (hw : s'.waiters[w]? = some (some i)) (hp : Posted (l ++ [st]) w h) :
    s'.handles[h]? = some i := by
  have hkeep : ∀ {i : Nat}, s.handles[h]? = some i → s'.handles[h]? = some i := by
    intro i hi
    rw [getElem?_of_grown hdoes.handles_grow (List.getElem?_eq_some_iff.mp hi).1, hi]
  obtain ⟨g, j, rfl, hj, heq⟩ | ⟨hwait, heq⟩ := hdoes.waiters_cases
  · rw [heq] at hw
    obtain ⟨rfl, hij⟩ | hw := getElem?_concat_cases hw
    · obtain hp | ⟨hgh, -, -⟩ := posted_append.mp hp
      · exact absurd hp.lt.1 (hf.waiters ▸ Nat.lt_irrefl _)
      · obtain rfl := Step.wait.inj hgh
        rw [hkeep hj, Option.some.inj hij]
    · obtain hp | ⟨-, -, rfl⟩ := posted_append.mp hp
      · exact hkeep (hf.home w i h hw hp)
      · have hlt := (List.getElem?_eq_some_iff.mp hw).1
        exact absurd hlt (hf.waiters ▸ Nat.lt_irrefl _)
  · have hp : Posted l w h := by
      obtain hp | ⟨hst, hh, -⟩ := posted_append.mp hp
      · exact hp
      · obtain ⟨j, hj⟩ := hf.lt_iff.mp hh
        exact absurd hj (by simp [hwait h hst])
    obtain heq | ⟨v, heq⟩ := heq
    · exact hkeep (hf.home w i h (heq ▸ hw) hp)
    · rw [heq] at hw
      obtain ⟨-, hnone⟩ | ⟨-, hw⟩ := getElem?_set_cases hw
      · cases hnone
      · exact hkeep (hf.home w i h hw hp)

theorem Follows.gone_of_join (hf : Follows l s) {w : Nat} (hlt : w < (made l).waiters)
    (hjoin : (s.waiters[w]?).join = none) : s.waiters[w]? = some none := by
  rw [← hf.waiters] at hlt
  rw [List.getElem?_eq_getElem hlt] at hjoin ⊢
  exact congrArg some hjoin

theorem Follows.gone_does (hf : Follows l s) (hdoes : s.Does st a woken s') (w : Nat) :
    Gone (l ++ [st]) w ↔ s'.waiters[w]? = some none := by
  cases hdoes with
  | cancel hst =>
      obtain rfl | ⟨_, rfl⟩ := Step.eq_of_cancels hst <;>
      exact (gone_append_of_stays (by simp) (by simp)).trans (hf.gone w)
  | wait hi =>
      rw [gone_append_of_stays (by simp) (by simp), hf.gone w]
      constructor
      · exact getElem?_append_of_some
      · intro hnone
        obtain ⟨-, heq⟩ | hnone := getElem?_concat_cases hnone
        · cases heq
        · exact hnone
  | pending hv hd hclear =>
      refine gone_append.trans ((or_iff_left ?_).trans (hf.gone w))
      rintro (⟨hst, -⟩ | ⟨k, h, hst, hp, hc⟩)
      · cases hst
      · obtain ⟨rfl, -⟩ := Step.poll.inj hst
        exact Bool.false_ne_true (hclear.symm.trans ((hf.flag_iff_posted hv hd hp).mpr hc))
  | @ready v k i d hv hd hset =>
      by_cases hwv : w = v
      · subst hwv
        obtain ⟨h, hp, hi⟩ := hf.posted hv
        refine iff_of_true (gone_append.mpr (.inr (.inr ⟨k, h, rfl, hp, ?_⟩)))
          (getElem?_set_of_some hv)
        exact (hf.flag_iff hi hd).mp hset
      · have hpoll : ∀ k', Step.poll v k ≠ .poll w k' := by
          intro k' heq
          exact hwv (Step.poll.inj heq).1.symm
        rw [gone_append_of_stays (by simp) hpoll, hf.gone w, forget,
          List.getElem?_set_ne (Ne.symm hwv)]
  | @drop v i d hv hd =>
      by_cases hwv : w = v
      · subst hwv
        have hlt : w < (made l).waiters := hf.waiters ▸ (List.getElem?_eq_some_iff.mp hv).1
        exact iff_of_true (gone_append.mpr (.inr (.inl ⟨rfl, hlt⟩))) (getElem?_set_of_some hv)
      · have hdrop : Step.dropWaiter v ≠ .dropWaiter w := by
          intro heq
          exact hwv (Step.dropWaiter.inj heq).symm
        rw [gone_append_of_stays hdrop (by simp), hf.gone w, forget,
          List.getElem?_set_ne (Ne.symm hwv)]
        rfl
  | idle hst =>
      rw [gone_append, hf.gone w]
      refine or_iff_left_of_imp ?_
      rintro (⟨rfl, hlt⟩ | ⟨k, h, rfl, hp, -⟩)
      · exact hf.gone_of_join hlt hst
      · exact hf.gone_of_join hp.lt.1 hst
  | _ => exact (gone_append_of_stays (by simp) (by simp)).trans (hf.gone w)

/-- A step that calls on no handle of an indicator leaves the calls on it as they were. -/
theorem Follows.called_does (hf : Follows l s) (hdoes : s.Does st a woken s') {i : Nat}
    (hst : ∀ h, st.cancels? = some h → s.handles[h]? ≠ some i) :
    (∃ g : Nat, s'.handles[g]? = some i ∧ Called (l ++ [st]) g) ↔
      ∃ g : Nat, s.handles[g]? = some i ∧ Called l g := by
  have hsame : ∀ g < (made l).handles, s'.handles[g]? = s.handles[g]? := by
    intro g hg
    exact getElem?_of_grown hdoes.handles_grow (hf.handles ▸ hg)
  constructor
  · rintro ⟨g, hg, hc⟩
    obtain hc | ⟨hcancels, hlt⟩ := called_append.mp hc
    · exact ⟨g, (hsame g hc.lt).symm.trans hg, hc⟩
    · exact absurd ((hsame g hlt).symm.trans hg) (hst g hcancels)
  · rintro ⟨g, hg, hc⟩
    exact ⟨g, (hsame g hc.lt).trans hg, called_append.mpr (.inl hc)⟩

theorem Follows.flag_does (hf : Follows l s) (hs : s.Sound) (hdoes : s.Does st a woken s')
    {i : Nat} {d : Indicator T} (hd : s'.family[i]? = some d) :
    d.flag = true ↔ ∃ g : Nat, s'.handles[g]? = some i ∧ Called (l ++ [st]) g := by
  obtain ⟨rfl, rfl, rfl⟩ | ⟨hset, h, hst, hi⟩ | ⟨⟨e, he, hflag⟩, hst⟩ := hdoes.flag_cases hd
  · rw [hf.called_does hdoes (by simp [Step.cancels?])]
    refine iff_of_false Bool.false_ne_true ?_
    rintro ⟨g, hg, -⟩
    exact Nat.lt_irrefl _ (hs.handle _ (List.mem_of_getElem? hg))
  · have hlt : h < s.handles.length := (List.getElem?_eq_some_iff.mp hi).1
    exact iff_of_true hset ⟨h, (getElem?_of_grown hdoes.handles_grow hlt).trans hi,
      called_append.mpr (.inr ⟨hst, hf.handles ▸ hlt⟩)⟩
  · rw [hf.called_does hdoes hst, hflag]
    exact hf.flag i e he

/-- A step that polls no waiter of an indicator changes none of the wakers left there. -/
theorem Follows.waker_of_not_poll (hf : Follows l s) {i w k : Nat} {d : Indicator T}
    (hd : s.family[i]? = some d) (hclear : d.flag = false)
    (hpoll : s.waiters[w]? = some (some i) → ∀ k', st ≠ .poll w k') :
    waker? d.token w = some k ↔ s.waiters[w]? = some (some i) ∧ Asked (l ++ [st]) w k := by
  rw [hf.waker i d hd hclear]
  exact and_congr_right fun hw => (asked_append_of_not_poll (hpoll hw)).symm

/-- The wakers that are left with a token once a waiter has gone. -/
theorem Follows.waker_forget (hf : Follows l s) {i j v w k : Nat} {d : Indicator T}
    (hv : s.waiters[v]? = some (some j)) (hd : s.family[i]? = some d) (hclear : d.flag = false)
    (hpoll : w ≠ v → ∀ k', st ≠ .poll w k') :
    waker? d.token w = some k ∧ w ≠ v ↔
      (s.forget v).waiters[w]? = some (some i) ∧ Asked (l ++ [st]) w k := by
  by_cases hwv : w = v
  · subst hwv
    have hgone : (s.forget w).waiters[w]? = some none := getElem?_set_of_some hv
    exact iff_of_false (fun h => h.2 rfl) (by simp [hgone])
  · rw [and_iff_left hwv, forget, List.getElem?_set_ne (Ne.symm hwv)]
    exact hf.waker_of_not_poll hd hclear fun _ => hpoll hwv

/-- A waiter of another indicator has left no waker here. -/
theorem Follows.ne_of_waker (hf : Follows l s) {i j v w k : Nat} {d : Indicator T}
    (hv : s.waiters[v]? = some (some j)) (hd : s.family[i]? = some d) (hclear : d.flag = false)
    (hne : i ≠ j) (hk : waker? d.token w = some k) : w ≠ v := by
  rintro rfl
  have hw := ((hf.waker i d hd hclear w k).mp hk).1
  exact hne (Option.some.inj (Option.some.inj (hw.symm.trans hv)))

theorem Follows.waker_does [LawfulToken T] (hf : Follows l s) (hs : s.Sound)
    (hdoes : s.Does st a woken s') {i : Nat} {d : Indicator T} (hd : s'.family[i]? = some d)
    (hclear : d.flag = false) (w k : Nat) :
    waker? d.token w = some k ↔ s'.waiters[w]? = some (some i) ∧ Asked (l ++ [st]) w k := by
  cases hdoes with
  | new =>
      obtain ⟨rfl, rfl⟩ | hd := getElem?_concat_cases hd
      · refine iff_of_false (by simp [Indicator.new, LawfulToken.waker?_fresh]) ?_
        rintro ⟨hw, -⟩
        exact Nat.lt_irrefl _ (hs.waiter _ (List.mem_of_getElem? hw))
      · exact hf.waker_of_not_poll hd hclear (by simp)
  | cancel hst =>
      obtain ⟨-, rfl⟩ | ⟨-, hd⟩ := getElem?_set_cases hd
      · simp at hclear
      · obtain rfl | ⟨_, rfl⟩ := Step.eq_of_cancels hst <;>
        exact hf.waker_of_not_poll hd hclear (by simp)
  | wait hi =>
      refine (hf.waker_of_not_poll hd hclear (by simp)).trans (and_congr_left ?_)
      intro hasked
      rw [asked_append_of_not_poll (by simp)] at hasked
      rw [wait, List.getElem?_append_left (hf.waiters ▸ hasked.lt)]
  | @pending v k' j e hv he hclear' =>
      obtain ⟨rfl, rfl⟩ | ⟨hne, hd⟩ := getElem?_set_cases hd
      · have hagrees := hs.agrees e (List.mem_of_getElem? he)
        rw [hagrees.waker?_poll hclear']
        split
        · next hwv =>
            subst hwv
            obtain ⟨h, hp, hi⟩ := hf.posted hv
            have hnot : ¬Cancelled l h := by simp [← hf.flag_iff hi he, hclear']
            rw [asked_append_poll, Option.some.injEq, eq_comm]
            exact ⟨fun hk => ⟨hv, hk, h, hp, hnot⟩, fun hasked => hasked.2.1⟩
        · next hwv =>
            refine hf.waker_of_not_poll he hclear' ?_
            intro _ k' heq
            exact hwv (Step.poll.inj heq).1.symm
      · refine hf.waker_of_not_poll hd hclear ?_
        intro hw k' heq
        obtain ⟨rfl, -⟩ := Step.poll.inj heq
        exact hne (Option.some.inj (Option.some.inj (hw.symm.trans hv)))
  | @ready v k' j e hv he hset =>
      have hne : i ≠ j := by
        rintro rfl
        obtain rfl := Option.some.inj (hd.symm.trans he)
        exact Bool.false_ne_true (hclear.symm.trans hset)
      have hpoll : w ≠ v → ∀ k'', Step.poll v k' ≠ .poll w k'' := by
        intro hwv k'' heq
        exact hwv (Step.poll.inj heq).1.symm
      rw [← hf.waker_forget hv hd hclear hpoll]
      exact (and_iff_left_of_imp (hf.ne_of_waker hv hd hclear hne)).symm
  | @drop v j e hv he =>
      have hpoll : w ≠ v → ∀ k', Step.dropWaiter v ≠ .poll w k' := by simp
      obtain ⟨rfl, rfl⟩ | ⟨hne, hd⟩ := getElem?_set_cases hd
      · refine Iff.trans ?_ (hf.waker_forget hv he hclear hpoll)
        rw [Indicator.leave, LawfulToken.waker?_leave]
        by_cases hwv : w = v <;> simp [hwv]
      · refine Iff.trans ?_ (hf.waker_forget hv hd hclear hpoll)
        exact (and_iff_left_of_imp (hf.ne_of_waker hv hd hclear hne)).symm
  | idle hst =>
      refine hf.waker_of_not_poll hd hclear ?_
      rintro hw k rfl
      simp [Ignores, hw] at hst
  | _ => exact hf.waker_of_not_poll hd hclear (by simp)

theorem Follows.does [LawfulToken T] (hf : Follows l s) (hs : s.Sound)
    (hdoes : s.Does st a woken s') :
    Follows (l ++ [st]) s' where
  handles := hf.length_handles hdoes
  waiters := hf.length_waiters hdoes
  akin _ _ hg hh := hf.akin_does hs hdoes hg hh
  flag _ _ hd := hf.flag_does hs hdoes hd
  home _ _ _ hw hp := hf.home_does hdoes hw hp
  gone := hf.gone_does hdoes
  waker _ _ hd hclear := hf.waker_does hs hdoes hd hclear

end

end RequestScheduler.Indicators
