import RequestScheduler.Proofs.Cancelling

/-!
# One winner for each family

What a step reports is read off what it does and off the script up to there: every flag, the answer
to a call and to a poll, and who is woken. The first call on a family wins, and it is the only one:
handles of one family stay of one family, so a later call finds the family cancelled.

All of this holds of every token that behaves as a token does (`LawfulToken`).
-/

namespace RequestScheduler.Indicators

open CancellationToken (waker?)

/-- What a step answers, whom it wakes and which flags it shows, after the steps of the past. -/
structure Told (past : List Step) (st : Step) (r : Report) : Prop where
  /-- Whoever makes a handle or a waiter is told its number. -/
  handle : (made (past ++ [st])).handles = (made past).handles + 1 →
    r.answer = .number (made past).handles
  waiter : (made (past ++ [st])).waiters = (made past).waiters + 1 →
    r.answer = .number (made past).waiters
  length_flags : r.flags.length = (made (past ++ [st])).handles
  flags : ∀ h : Nat, r.flags[h]? = some true ↔ Cancelled (past ++ [st]) h
  asked : ∀ h, st = .isCancelled h → h < (made past).handles →
    ∃ b : Bool, r.answer = .flag b ∧ (b = true ↔ Cancelled past h)
  called : ∀ h, st.cancels? = some h → h < (made past).handles →
    ∃ b : Bool, st.winners? r.answer = some b.toNat ∧ (b = true ↔ ¬Cancelled past h)
  wins : st.winners? r.answer = some 1 → ∃ h, st.cancels? = some h ∧ h < (made past).handles
  polled : ∀ w k h, st = .poll w k → Live past w → Posted past w h →
    (r.answer = .ready ∧ Cancelled past h) ∨ (r.answer = .pending ∧ ¬Cancelled past h)
  /-- Of each waiter that is woken there is one pair, with the waker of its last poll. -/
  woken : ∃ pairs : List (Nat × Nat), (pairs.map Prod.fst).Nodup ∧ r.woken = pairs.map Prod.snd ∧
    ∀ w k, (w, k) ∈ pairs ↔ st.winners? r.answer = some 1 ∧ Awaits past w k ∧
      ∃ g h, st.cancels? = some g ∧ Akin past g h ∧ Posted past w h

section

variable {T : Type} [CancellationToken T]
variable {l : List Step} {s s' : Indicators T} {st : Step} {a : Answer} {woken : List Nat}

theorem Follows.handle_does (hf : Follows l s) (hdoes : s.Does st a woken s')
    (hmore : (made (l ++ [st])).handles = (made l).handles + 1) :
    a = .number (made l).handles := by
  rw [← hf.length_handles hdoes, ← hf.handles] at hmore
  rw [← hf.handles]
  cases hdoes with
  | new => rfl
  | clone => rfl
  | _ => exact absurd hmore.symm (Nat.succ_ne_self _)

theorem Follows.waiter_does (hf : Follows l s) (hdoes : s.Does st a woken s')
    (hmore : (made (l ++ [st])).waiters = (made l).waiters + 1) :
    a = .number (made l).waiters := by
  rw [← hf.length_waiters hdoes, ← hf.waiters] at hmore
  rw [← hf.waiters]
  cases hdoes with
  | wait => rfl
  | ready => exact absurd (List.length_set.symm.trans hmore).symm (Nat.succ_ne_self _)
  | drop => exact absurd (List.length_set.symm.trans hmore).symm (Nat.succ_ne_self _)
  | _ => exact absurd hmore.symm (Nat.succ_ne_self _)

theorem Follows.isCancelled_iff (hf : Follows l s) (hs : s.Sound) (h : Nat) :
    s.isCancelled h = true ↔ Cancelled l h := by
  obtain ⟨hi, ho⟩ | ⟨i, d, hi, hd, ho⟩ := hs.ofHandle?_cases h
  · refine iff_of_false (by simp [isCancelled, ho]) ?_
    intro hc
    obtain ⟨i, hi'⟩ := hf.lt_iff.mp hc.lt
    simp [hi] at hi'
  · rw [isCancelled, ho]
    exact hf.flag_iff hi hd

theorem Follows.flags_iff (hf : Follows l s) (hs : s.Sound) (h : Nat) :
    s.flags[h]? = some true ↔ Cancelled l h := by
  rw [← hf.isCancelled_iff hs, flags, List.getElem?_map, Option.map_eq_some_iff]
  constructor
  · rintro ⟨g, hg, hset⟩
    obtain ⟨hlt, hgh⟩ := List.getElem?_eq_some_iff.mp hg
    rw [List.getElem_range] at hgh
    rwa [hgh]
  · intro hset
    have hlt : h < s.handles.length := hf.handles ▸ ((hf.isCancelled_iff hs h).mp hset).lt
    exact ⟨h, List.getElem?_range hlt, hset⟩

theorem Follows.asked_does (hf : Follows l s) {h : Nat}
    (hdoes : s.Does (.isCancelled h) a woken s') (hh : h < (made l).handles) :
    ∃ b : Bool, a = .flag b ∧ (b = true ↔ Cancelled l h) := by
  obtain ⟨i, hi⟩ := hf.lt_iff.mp hh
  cases hdoes with
  | asks hi hd => exact ⟨_, rfl, hf.flag_iff hi hd⟩
  | cancel hst => cases hst
  | idle hst => simp [Ignores, hi] at hst

theorem Follows.called_wins (hf : Follows l s) (hdoes : s.Does st a woken s') {h : Nat}
    (hst : st.cancels? = some h) (hh : h < (made l).handles) :
    ∃ b : Bool, st.winners? a = some b.toNat ∧ (b = true ↔ ¬Cancelled l h) := by
  obtain ⟨i, hi⟩ := hf.lt_iff.mp hh
  cases hdoes with
  | cancel hst' hi' hd ha =>
      obtain rfl := Option.some.inj (hst'.symm.trans hst)
      exact ⟨_, ha, by simp [← hf.flag_iff hi' hd]⟩
  | idle hidle => simp [hidle.handle_of_cancels hst] at hi
  | _ => cases hst

/-- Nothing else wins than a call on a handle that is there. -/
theorem Follows.wins_does (hf : Follows l s) (hdoes : s.Does st a woken s')
    (hwins : st.winners? a = some 1) : ∃ h, st.cancels? = some h ∧ h < (made l).handles := by
  cases hdoes with
  | cancel hst hi => exact ⟨_, hst, hf.lt_iff.mpr ⟨_, hi⟩⟩
  | idle _ ha => exact absurd hwins ha
  | _ => cases hwins

theorem Follows.polled_does (hf : Follows l s) {w k h : Nat}
    (hdoes : s.Does (.poll w k) a woken s') (hlive : Live l w) (hp : Posted l w h) :
    (a = .ready ∧ Cancelled l h) ∨ (a = .pending ∧ ¬Cancelled l h) := by
  obtain ⟨i, hi⟩ := hf.live_iff.mp hlive
  cases hdoes with
  | pending hw hd hclear =>
      refine .inr ⟨rfl, ?_⟩
      rw [← hf.flag_iff_posted hw hd hp, hclear]
      exact Bool.false_ne_true
  | ready hw hd hset => exact .inl ⟨rfl, (hf.flag_iff_posted hw hd hp).mp hset⟩
  | cancel hst => cases hst
  | idle hst => simp [Ignores, hi] at hst

/-- The wakers that are left with a token are those of the waiters of its family that await the
cancellation. -/
theorem Follows.waker_iff (hf : Follows l s) {i g w k : Nat} {d : Indicator T}
    (hi : s.handles[g]? = some i) (hd : s.family[i]? = some d) (hclear : d.flag = false) :
    waker? d.token w = some k ↔ Awaits l w k ∧ ∃ h, Akin l g h ∧ Posted l w h := by
  have hg : g < s.handles.length := (List.getElem?_eq_some_iff.mp hi).1
  rw [hf.waker i d hd hclear]
  constructor
  · rintro ⟨hw, hasked⟩
    obtain ⟨h, hp, hi'⟩ := hf.posted hw
    have hh : h < s.handles.length := (List.getElem?_eq_some_iff.mp hi').1
    exact ⟨⟨hf.live_iff.mpr ⟨i, hw⟩, hasked⟩, h, (hf.akin g h hg hh).mpr (hi.trans hi'.symm), hp⟩
  · rintro ⟨⟨hlive, hasked⟩, h, hk, hp⟩
    obtain ⟨j, hw⟩ := hf.live_iff.mp hlive
    have hj := hf.home w j h hw hp
    have hh : h < s.handles.length := (List.getElem?_eq_some_iff.mp hj).1
    have hsame := (hf.akin g h hg hh).mp hk
    rw [hi, hj] at hsame
    exact ⟨Option.some.inj hsame ▸ hw, hasked⟩

/-- The call that wins wakes the waiters of its family that await the cancellation, and nothing
else wakes anybody. -/
theorem Follows.woken_does [LawfulToken T] (hf : Follows l s) (hs : s.Sound)
    (hdoes : s.Does st a woken s') :
    ∃ pairs : List (Nat × Nat), (pairs.map Prod.fst).Nodup ∧ woken = pairs.map Prod.snd ∧
      ∀ w k, (w, k) ∈ pairs ↔ st.winners? a = some 1 ∧ Awaits l w k ∧
        ∃ g h, st.cancels? = some g ∧ Akin l g h ∧ Posted l w h := by
  cases hdoes with
  | @cancel st a g i d hst hi hd ha =>
      cases hflag : d.flag with
      | true =>
          rw [hflag] at ha
          exact ⟨[], List.nodup_nil, by rw [d.cancel_of_flag hflag]; rfl, by simp [ha]⟩
      | false =>
          rw [hflag] at ha
          obtain ⟨pairs, hnodup, hwoken, hpairs⟩ :=
            (hs.agrees d (List.mem_of_getElem? hd)).woken_cancel hflag
          refine ⟨pairs, hnodup, hwoken, ?_⟩
          intro w k
          rw [hpairs, hf.waker_iff hi hd hflag]
          simp [ha, hst]
  | idle _ ha => exact ⟨[], List.nodup_nil, rfl, by simp [ha]⟩
  | _ => exact ⟨[], List.nodup_nil, rfl, by simp [Step.winners?]⟩

theorem Follows.told [LawfulToken T] (hf : Follows l s) (hs : s.Sound)
    (hdoes : s.Does st a woken s') :
    Told l st { answer := a, woken, flags := s'.flags } where
  handle := hf.handle_does hdoes
  waiter := hf.waiter_does hdoes
  length_flags := by
    rw [← (hf.does hs hdoes).handles, flags, List.length_map, List.length_range]
  flags := (hf.does hs hdoes).flags_iff (hs.of_does hdoes)
  asked := by
    rintro h rfl hh
    exact hf.asked_does hdoes hh
  called _ hst hh := hf.called_wins hdoes hst hh
  wins := hf.wins_does hdoes
  polled := by
    rintro w k h rfl hlive hp
    exact hf.polled_does hdoes hlive hp
  woken := hf.woken_does hs hdoes

end

/-! ### Runs -/

/-- What a script leaves. -/
def after (T : Type) [CancellationToken T] (l : List Step) : Indicators T := (run l {}).2

/-- What a script is told. -/
def reports (T : Type) [CancellationToken T] (l : List Step) : List Report :=
  (run l ({} : Indicators T)).1

section

variable {T : Type} [CancellationToken T]

theorem run_append (l more : List Step) (s : Indicators T) :
    (run (l ++ more) s).1 = (run l s).1 ++ (run more (run l s).2).1 ∧
      (run (l ++ more) s).2 = (run more (run l s).2).2 := by
  induction l generalizing s with
  | nil => exact ⟨rfl, rfl⟩
  | cons st l ih =>
      obtain ⟨hreports, hstate⟩ := ih (s.step st).2
      exact ⟨congrArg (List.cons _) hreports, hstate⟩

theorem length_run (l : List Step) (s : Indicators T) : (run l s).1.length = l.length := by
  induction l generalizing s with
  | nil => rfl
  | cons st l ih => exact congrArg Nat.succ (ih (s.step st).2)

theorem after_append (l : List Step) (st : Step) :
    after T (l ++ [st]) = ((after T l).perform st).2.2 :=
  (run_append l [st] {}).2

/-- The report of a step is that of the state that the steps before it leave. -/
theorem getElem?_reports (past : List Step) (st : Step) (rest : List Step) :
    (reports T (past ++ st :: rest))[past.length]? = some ((after T past).step st).1 := by
  rw [reports, (run_append past (st :: rest) {}).1, ← length_run past ({} : Indicators T),
    List.getElem?_append_right (Nat.le_refl _), Nat.sub_self]
  rfl

variable [LawfulToken T]

theorem sound_follows_after (l : List Step) : (after T l).Sound ∧ Follows l (after T l) := by
  induction l using List.reverseRecOn with
  | nil => exact ⟨sound_start, follows_start⟩
  | append_singleton l st ih =>
      obtain ⟨hs, hf⟩ := ih
      have hdoes := hs.does st
      rw [after_append]
      exact ⟨hs.of_does hdoes, hf.does hs hdoes⟩

theorem handles_grow_after (l more : List Step) :
    (after T l).handles <+: (after T (l ++ more)).handles := by
  induction more using List.reverseRecOn with
  | nil => simp
  | append_singleton more st ih =>
      obtain ⟨hs, -⟩ := sound_follows_after (T := T) (l ++ more)
      rw [← List.append_assoc, after_append]
      exact ih.trans (hs.does st).handles_grow

theorem told_reports (past : List Step) (st : Step) (rest : List Step) :
    ∃ r, (reports T (past ++ st :: rest))[past.length]? = some r ∧ Told past st r := by
  obtain ⟨hs, hf⟩ := sound_follows_after (T := T) past
  exact ⟨_, getElem?_reports past st rest, hf.told hs (hs.does st)⟩

end

/-- Two handles that are there are of one family from then on, or never. -/
theorem akin_append_iff {l : List Step} {g h : Nat} (hg : g < (made l).handles)
    (hh : h < (made l).handles) (more : List Step) : Akin (l ++ more) g h ↔ Akin l g h := by
  obtain ⟨-, hf⟩ := sound_follows_after (T := Token) l
  obtain ⟨-, hf'⟩ := sound_follows_after (T := Token) (l ++ more)
  have hpre := handles_grow_after (T := Token) l more
  rw [← hf.handles] at hg hh
  rw [hf'.akin g h (Nat.lt_of_lt_of_le hg hpre.length_le) (Nat.lt_of_lt_of_le hh hpre.length_le),
    hf.akin g h hg hh, getElem?_of_grown hpre hg, getElem?_of_grown hpre hh]

/-! ### The winner -/

/-- The step after `past` has the call that wins for the family of `h`. -/
def Won (script : List Step) (rs : List Report) (h : Nat) (past : List Step) : Prop :=
  ∃ st rest r g, script = past ++ st :: rest ∧ rs[past.length]? = some r ∧
    st.cancels? = some g ∧ Akin script g h ∧ st.winners? r.answer = some 1

/-- Flags, winners and waiters agree in all that a script is told. -/
structure Agree (script : List Step) (rs : List Report) : Prop where
  length : rs.length = script.length
  told : ∀ past st rest, script = past ++ st :: rest →
    ∃ r, rs[past.length]? = some r ∧ Told past st r
  winner : ∀ h, Cancelled script h → ∃! past, Won script rs h past

section

variable {T : Type} [CancellationToken T] [LawfulToken T]
variable {script past past' : List Step} {h : Nat}

/-- The call that wins is on a handle that is there, and its family was not cancelled before. -/
theorem Won.exists_first (hwon : Won script (reports T script) h past) :
    ∃ st rest g, script = past ++ st :: rest ∧ st.cancels? = some g ∧
      g < (made past).handles ∧ Akin script g h ∧ ¬Cancelled past g := by
  obtain ⟨st, rest, r, g, rfl, hr, hst, hk, hwins⟩ := hwon
  obtain ⟨r', hr', htold⟩ := told_reports (T := T) past st rest
  obtain rfl := Option.some.inj (hr.symm.trans hr')
  obtain ⟨g', hst', hg⟩ := htold.wins hwins
  obtain rfl := Option.some.inj (hst.symm.trans hst')
  obtain ⟨b, hb, hnot⟩ := htold.called g hst hg
  obtain rfl : b = true := by
    rw [hwins] at hb
    exact Bool.toNat_eq_one.mp (Option.some.inj hb).symm
  exact ⟨st, rest, g, rfl, hst, hg, hk, hnot.mp rfl⟩

/-- Once a family was won, it is won no more. -/
theorem Won.eq_of_le (hwon : Won script (reports T script) h past)
    (hwon' : Won script (reports T script) h past') (hpre : past <+: past') : past' = past := by
  obtain ⟨st, rest, g, heq, hst, hg, hk, -⟩ := hwon.exists_first
  obtain ⟨st', rest', g', heq', -, hg', hk', hnot⟩ := hwon'.exists_first
  obtain ⟨between, rfl⟩ := hpre
  cases between with
  | nil => exact List.append_nil past
  | cons x more =>
      obtain rfl : x = st := by
        rw [heq', List.append_assoc] at heq
        exact (List.cons.inj (List.append_cancel_left heq)).1
      have hcalled : Called (past ++ x :: more) g := ⟨past, x, more, rfl, hst, hg⟩
      subst heq'
      have hakin : Akin (past ++ x :: more) g' g :=
        (akin_append_iff hg' hcalled.lt _).mp (hk'.trans _ _ _ (hk.symm _ _))
      exact absurd ⟨g, hakin, hcalled⟩ hnot

theorem Won.eq (hwon : Won script (reports T script) h past)
    (hwon' : Won script (reports T script) h past') : past' = past := by
  obtain ⟨st, rest, _, heq, -⟩ := hwon.exists_first
  obtain ⟨st', rest', _, heq', -⟩ := hwon'.exists_first
  have hpre : past <+: script := ⟨st :: rest, heq.symm⟩
  have hpre' : past' <+: script := ⟨st' :: rest', heq'.symm⟩
  obtain hle | hle := List.prefix_or_prefix_of_prefix hpre hpre'
  · exact hwon.eq_of_le hwon' hle
  · exact (hwon'.eq_of_le hwon hle).symm

theorem Cancelled.exists_won (T : Type) [CancellationToken T] [LawfulToken T]
    (hc : Cancelled script h) : ∃ past, Won script (reports T script) h past := by
  obtain ⟨past, st, rest, g, rfl, hst, hg, hk, hnot⟩ := hc.first
  obtain ⟨r, hr, htold⟩ := told_reports (T := T) past st rest
  obtain ⟨b, hwins, hb⟩ := htold.called g hst hg
  rw [hb.mpr hnot] at hwins
  exact ⟨past, st, rest, r, g, rfl, hr, hst, hk.symm _ _, hwins⟩

end

/-- In every run each flag tells whether its family was cancelled, one call wins for each family
that was, a poll is ready exactly if the family of the waiter was cancelled, and the call that wins
wakes the waiters of its family that were last polled pending, each once and with the waker of that
poll. -/
theorem run_agree (T : Type) [CancellationToken T] [LawfulToken T] (script : List Step) :
    Agree script (run script ({} : Indicators T)).1 where
  length := length_run script {}
  told := by
    rintro past st rest rfl
    exact told_reports past st rest
  winner h hc := by
    obtain ⟨past, hwon⟩ := hc.exists_won T
    exact ⟨past, hwon, fun _ hwon' => Won.eq (T := T) hwon hwon'⟩

/-- A waiter that goes from one waker to another is woken by the last one, and a waiter of a clone
with it. The waiters that were dropped, that were not polled and that wait elsewhere are not. -/
def rewoken : List Step :=
  [.clone 0, .new, .wait 0, .wait 1, .wait 2, .wait 0, .wait 1, .poll 0 7, .poll 1 8, .poll 2 9,
    .poll 3 5, .poll 0 6, .dropWaiter 3, .cancel 1, .cancel 0, .poll 0 6, .isCancelled 2]

theorem run_agree_rewoken : LawfulToken Token ∧
    (reports Token rewoken).map Report.woken =
      [[], [], [], [], [], [], [], [], [], [], [], [], [], [6, 8], [], [], []] ∧
    Agree rewoken (run rewoken ({} : Indicators Token)).1 :=
  ⟨inferInstance, by decide, run_agree Token rewoken⟩

end RequestScheduler.Indicators
