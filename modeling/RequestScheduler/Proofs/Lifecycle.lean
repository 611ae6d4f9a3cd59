import RequestScheduler.Proofs.Begun

/-!
# The life of a slot

A slot may be dispatched by hand and by any number of gates, it may be cancelled by whoever made it
and by its consumer, in any order and more than once, also from within what its own cancellation
sets off; its task may be polled, the permits be closed and the runtime be lost at any time. Still
it goes one of two ways: from the queue to its vacancy, or from the queue to the runtime and from
there to its vacancy (`Slot.Lifecycle.path`). On the first way its job is never started, on the
second it is started once, unless it is barred (`Slot.Denies`).

How far a slot has come tells where it came from (`Station.route`) and how often its job was started
(`Station.Tally`), and a passage keeps both up. A job is started when its task is polled that has
its permit, if it needs one. That is when a job of the slot's own is seen to begin; a callback is
seen to begin later, when a thread takes it up.
-/

namespace RequestScheduler

variable {D : Type}

namespace Station

/-- The way that a slot has come. -/
def route (b : Station D) : List Stage :=
  match b.stage with
  | .refused => [.refused]
  | .queued => [.queued]
  | .dispatched => [.queued, .dispatched]
  | .vacated =>
    if b.task = .unspawned then [.queued, .vacated] else [.queued, .dispatched, .vacated]

theorem getLast?_route (b : Station D) : b.route.getLast? = some b.stage := by
  unfold route
  split
  · simp_all
  · simp_all
  · simp_all
  · split <;> simp_all

theorem route_congr {b c : Station D} (hs : c.stage = b.stage)
    (ht : c.task = .unspawned ↔ b.task = .unspawned) : c.route = b.route := by
  unfold route
  rw [hs]
  split
  · rfl
  · rfl
  · rfl
  · simp only [ht]

theorem unspawned_of_route {b : Station D} (h : b.route = [.queued, .vacated]) :
    b.task = .unspawned := by
  unfold route at h
  split at h
  · simp at h
  · simp at h
  · simp at h
  · split at h
    · assumption
    · simp at h

theorem vacated_of_route {b : Station D} (h : b.route = [.queued, .dispatched, .vacated]) :
    b.stage = .vacated ∧ b.task ≠ .unspawned := by
  unfold route at h
  split at h
  · simp at h
  · simp at h
  · simp at h
  · split at h
    · simp at h
    · exact ⟨‹_›, ‹_›⟩

/-- There are two ways from the queue. -/
theorem route_mem {b : Station D} (h : b.stage ≠ .refused) : b.route ∈ [[Stage.queued],
    [.queued, .vacated], [.queued, .dispatched], [.queued, .dispatched, .vacated]] := by
  unfold route
  split
  · exact absurd ‹_› h
  · simp
  · simp
  · split <;> simp

/-- How often the job was started of a slot that stands here. -/
structure Tally (s : Machine D) (b : Station D) (n : Nat) : Prop where
  begun : b.task = .working ∨ b.callback.isUnderway = true ∨ b.callback = .spent → n = 1
  fresh : b.task = .unspawned ∨ b.task.isWaiting = true → n = 0
  ended : b.task = .ended → n = 1 ∧ (s.live = true → b.callback = .spent) ∨
    n = 0 ∧ (s.live = false ∨ b.kind = .read ∧ s.closing? = some true)

variable {s t : Machine D} {i n : Nat} {b c : Station D} {new : List (Work D)}

theorem Tally.le_one (h : b.Tally s n) : n ≤ 1 := by
  have zero (hn : n = 0) : n ≤ 1 := hn ▸ Nat.zero_le 1
  cases ht : b.task with
  | unspawned => exact zero (h.fresh (.inl ht))
  | fresh | queueing | handed => exact zero (h.fresh (.inr (by rw [ht]; rfl)))
  | working => exact Nat.le_of_eq (h.begun (.inl ht))
  | ended =>
      obtain ⟨hn, _⟩ | ⟨hn, _⟩ := h.ended ht
      · exact Nat.le_of_eq hn
      · exact zero hn

theorem Tally.mono (h : b.Tally s n) (hl : t.live = true → s.live = true)
    (hc : t.closing? = s.closing? ∨ t.closing? = some true) : b.Tally t n where
  begun := h.begun
  fresh := h.fresh
  ended ht := by
    refine (h.ended ht).imp (And.imp_right fun hs hlive => hs (hl hlive))
      (And.imp_right (Or.imp (fun hn => ?_) (And.imp_right fun hs => ?_)))
    · cases hlive : t.live with
      | false => rfl
      | true => cases hn.symm.trans (hl hlive)
    · obtain hc | hc := hc <;> simp [hc, hs]

/-- The job has not been started. -/
theorem Tally.none (hn : n = 0) (ht : b.task ≠ .working) (hu : b.callback.isUnderway = false)
    (hc : b.callback ≠ .spent)
    (he : b.task = .ended → s.live = false ∨ b.kind = .read ∧ s.closing? = some true) :
    b.Tally s n where
  begun hb := by
    obtain hb | hb | hb := hb
    · exact absurd hb ht
    · cases hu.symm.trans hb
    · exact absurd hb hc
  fresh _ := hn
  ended ht := .inr ⟨hn, he ht⟩

/-- The job has been started. -/
theorem Tally.one (hn : n = 1) (ht : b.task = .working ∨ b.task = .ended)
    (he : b.task = .ended → s.live = true → b.callback = .spent) : b.Tally s n where
  begun _ := hn
  fresh hf := by obtain ht | ht := ht <;> simp [ht, Task.isWaiting] at hf
  ended ht := .inl ⟨hn, he ht⟩

variable (h : b.Passage s t i new c) (hb : b.Charted s i)

include h hb

omit hb in
theorem Passage.kind : c.kind = b.kind := by
  cases h <;> rfl

/-- A passage leads on along one of the two ways. -/
theorem Passage.route :
    c.route = if b.stage = c.stage then b.route else b.route ++ [c.stage] := by
  have same (hs : c.stage = b.stage) (ht : c.task = .unspawned ↔ b.task = .unspawned) :
      c.route = if b.stage = c.stage then b.route else b.route ++ [c.stage] := by
    rw [if_pos hs.symm, route_congr hs ht]
  have hphase := hb.phase
  have unspawned (hq : b.stage = .queued) : b.task = .unspawned := by
    cases hphase with
    | queued _ _ ht => exact ht
    | refused hs | skipped hs | waiting hs | working hs => cases hq.symm.trans hs
    | ended _ hs => simp [hq] at hs
  have waiting (ht : b.task.isWaiting = true) : b.task ≠ .unspawned := by
    intro hn
    simp [hn, Task.isWaiting] at ht
  cases h with
  | stay | openVacancy | yield | resume | hear => exact same rfl .rfl
  | skip hq => simp [Station.route, hq, unspawned hq]
  | dispatch hq | drop hq => simp [Station.route, hq]
  | vacate hw =>
      have ht : b.task = .ended := hb.apt hw rfl
      cases hphase with
      | ended _ hs =>
          obtain ⟨hs, _⟩ | ⟨hs, _⟩ := hs <;> simp [Station.route, hs, ht]
      | waiting _ _ hn => simp [ht, Task.isWaiting] at hn
      | refused _ _ hn | queued _ _ hn | skipped _ _ hn | working _ _ hn => cases ht.symm.trans hn
  | endTask hw => exact same rfl (by simp [(hb.apt hw rfl).1])
  | enqueue _ ht => exact same rfl (by simp [ht])
  | hand ht => exact same rfl (by simp [ht])
  | stop _ ht => exact same rfl (by simp [waiting ht])
  | start _ ht | finish _ ht =>
      refine same rfl (iff_of_false (by simp) (waiting ?_))
      obtain ht | ht := ht <;> rw [ht] <;> rfl

/-- A job is started while the runtime is there and, if it needs a permit, permits are to be had. -/
theorem Passage.starts (hn : b.task ≠ .working) (hc : c.task = .working) :
    s.live = true ∧ (b.kind = .read → s.closing? ≠ some true) := by
  have live (hw : s.work = []) (ht : b.task = .fresh ∨ b.task = .handed) : s.live = true := by
    cases hb.phase with
    | waiting _ _ _ _ _ hlive => exact (hlive.resolve_left (by simp [hw])).1
    | refused _ _ hn | queued _ _ hn | skipped _ _ hn | working _ _ hn | ended hn => simp [hn] at ht
  cases h with
  | start hw ht hp | finish hw ht hp => exact ⟨live hw ht, hp⟩
  | stay | skip | openVacancy | vacate | yield | resume | hear => exact absurd hc hn
  | _ => cases hc

/-- The job of a slot is started once at most. -/
theorem Passage.tally (hl : t.live = s.live)
    (hcl : t.closing? = s.closing? ∨ t.closing? = some true) (ht : b.Tally s n) :
    c.Tally t (n + if b.task ≠ .working ∧ c.task = .working then 1 else 0) := by
  have hmono : b.Tally t n := ht.mono (fun hlive => hl ▸ hlive) hcl
  have closed (hs : s.closing? = some true) : t.closing? = some true := by
    obtain hc | hc := hcl <;> simp [hc, hs]
  have hphase := hb.phase
  have queued (hq : b.stage = .queued) :
      n = 0 ∧ b.task = .unspawned ∧ ∃ job, b.callback = .held job := by
    cases hphase with
    | queued _ _ hn hc => exact ⟨ht.fresh (.inl hn), hn, hc⟩
    | refused hs | skipped hs | waiting hs | working hs => cases hq.symm.trans hs
    | ended _ hs => simp [hq] at hs
  have waiting (hw : b.task.isWaiting = true) : n = 0 ∧ ∃ job, b.callback = .held job := by
    cases hphase with
    | waiting _ _ _ _ hc => exact ⟨ht.fresh (.inr hw), hc⟩
    | refused _ _ hn | queued _ _ hn | skipped _ _ hn | working _ _ hn | ended hn =>
        simp [hn, Task.isWaiting] at hw
  -- Whoever has a callback that is under way has a task at work, or had one on a lost runtime.
  have underway (hu : b.callback.isUnderway = true) :
      n = 1 ∧ (b.task = .working ∨ b.task = .ended) ∧ (b.task = .ended → t.live = false) := by
    refine ⟨ht.begun (.inr (.inl hu)), ?_⟩
    cases hphase with
    | refused _ _ _ hc | skipped _ _ _ hc => simp [hc, Callback.isUnderway] at hu
    | queued _ _ _ hc | waiting _ _ _ _ hc =>
        obtain ⟨job, hc⟩ := hc
        simp [hc, Callback.isUnderway] at hu
    | working _ _ hn => exact ⟨.inl hn, fun he => by cases hn.symm.trans he⟩
    | ended hn _ _ hc =>
        refine ⟨.inr hn, fun _ => ?_⟩
        cases hlive : t.live with
        | false => rfl
        | true =>
            obtain hc | ⟨hc | ⟨_, hc⟩, _⟩ := hc (hl ▸ hlive) <;>
              simp [hc, Callback.isUnderway] at hu
  cases h with
  | stay | openVacancy | vacate => simpa using ⟨hmono.begun, hmono.fresh, hmono.ended⟩
  | skip hq =>
      obtain ⟨hn, htask, _⟩ := queued hq
      exact .none (by simpa using hn) (by simp [htask]) rfl (by simp) (by simp [htask])
  | dispatch hq =>
      obtain ⟨hn, _, job, hc⟩ := queued hq
      exact .none (by simpa using hn) (by simp) (by rw [hc]; rfl) (by simp [hc]) (by simp)
  | drop hq hlive =>
      obtain ⟨hn, _, job, hc⟩ := queued hq
      exact .none (by simpa using hn) (by simp) (by rw [hc]; rfl) (by simp [hc])
        fun _ => .inl (hl.trans hlive)
  | endTask hw =>
      obtain ⟨hn, hend⟩ := hb.apt hw rfl
      have spent (hs : b.callback = .spent) : b.callback.close = .spent := by rw [hs]; rfl
      cases hphase with
      | refused _ _ hu | queued _ _ hu | skipped _ _ hu => exact absurd hu hn
      | waiting _ _ hwait _ hc =>
          obtain ⟨job, hc⟩ := hc
          refine .none (by simpa using ht.fresh (.inr hwait)) (by simp) (by rw [hc]; rfl)
            (by simp [hc, Callback.close]) fun _ => .inl ?_
          refine hl.trans (Bool.eq_false_iff.mpr fun hlive => ?_)
          obtain he | ⟨he, _⟩ := hend hlive <;> simp [he, Task.isWaiting] at hwait
      | working _ _ hwork =>
          refine .one (by simpa using ht.begun (.inl hwork)) (.inr rfl) fun _ hlive => ?_
          obtain he | ⟨_, he⟩ := hend (hl ▸ hlive)
          · cases hwork.symm.trans he
          · exact spent he
      | ended he =>
          obtain ⟨hone, hs⟩ | ⟨hzero, hs⟩ := hmono.ended he
          · exact .one (by simpa using hone) (.inr rfl) fun _ hlive => spent (hs hlive)
          · have hidle : b.callback.isUnderway = false ∧ b.callback ≠ .spent := by
              refine ⟨Bool.eq_false_iff.mpr fun hu => ?_, fun hu => ?_⟩
              · cases (underway hu).1.symm.trans hzero
              · cases (ht.begun (.inr (.inr hu))).symm.trans hzero
            refine .none (by simpa using hzero) (by simp) ?_ ?_ fun _ => hs
            · cases hc : b.callback <;> simp_all [Callback.close, Callback.isUnderway]
            · cases hc : b.callback <;> simp_all [Callback.close, Callback.isUnderway]
  | yield hw =>
      obtain ⟨w, hw, hends⟩ := hw
      obtain ⟨hn, htask, hlost⟩ :=
        underway (by rw [hb.performing (List.mem_of_head? hw) hends]; rfl)
      exact .one (by simpa using hn) htask fun he hlive => by cases (hlost he).symm.trans hlive
  | resume _ hu =>
      obtain ⟨hn, htask, hlost⟩ := underway hu
      exact .one (by simpa using hn) htask fun he hlive => by cases (hlost he).symm.trans hlive
  | hear _ hw => exact .one (by simpa using ht.begun (.inl hw)) (.inl hw) fun _ _ => rfl
  | enqueue _ hw =>
      obtain ⟨hn, job, hc⟩ := waiting (by rw [hw]; rfl)
      exact .none (by simpa using hn) (by simp) (by rw [hc]; rfl) (by simp [hc]) (by simp)
  | hand hw =>
      obtain ⟨hn, job, hc⟩ := waiting (by rw [hw]; rfl)
      exact .none (by simpa using hn) (by simp) (by rw [hc]; rfl) (by simp [hc]) (by simp)
  | stop _ hw hk hp =>
      obtain ⟨hn, job, hc⟩ := waiting hw
      exact .none (by simpa using hn) (by simp) (by rw [hc]; rfl) (by simp [hc])
        fun _ => .inr ⟨hk, closed hp⟩
  | start _ hw | finish _ hw =>
      have hwait : b.task.isWaiting = true := by obtain hw | hw := hw <;> rw [hw] <;> rfl
      have hne : b.task ≠ .working := by obtain hw | hw := hw <;> simp [hw]
      exact .one (by simp [(waiting hwait).1, hne]) (.inl rfl) (by simp)

end Station

namespace Slot

open Machine

/-- What a machine whose slots are driven by hand does in one step. -/
inductive Act (D : Type) where
  | item (w : Work D)
  | move (m : Move D)

namespace Act

/-- A work item is carried out when it comes first, and a move comes to a machine at rest. -/
def Enabled : Act D → Machine D → Prop
  | .item w, s => s.work.head? = some w
  | .move _, s => s.work = []

def apply : Act D → Machine D → Machine D
  | .item w, s => exec w { s with work := s.work.tail }
  | .move m, s => m.begin s

end Act

/-- A machine and the acts that led to it, the latest first, each with the machine that it was done
to. -/
inductive Chronicle (permits : Option Permits) : List (Machine D × Act D) → Machine D → Prop
  | start : Chronicle permits [] (.start permits)
  | next {past : List (Machine D × Act D)} {s : Machine D} {a : Act D}
      (h : Chronicle permits past s) (ha : a.Enabled s) :
      Chronicle permits ((s, a) :: past) (a.apply s)

/-- Whether the job of a slot was started by its task, which has not ended. -/
def atWork (s : Machine D) (i : Nat) : Bool := s.entries[i]?.any fun e => decide (e.task = .working)

/-- How often the job of slot `i` was started. -/
def starts (past : List (Machine D × Act D)) (i : Nat) : Nat :=
  past.countP fun p => !atWork p.1 i && atWork (p.2.apply p.1) i

/-- The stages that slot `i` has come to, in their order. -/
def stages : List (Machine D × Act D) → Machine D → Nat → List Stage
  | [], s, i => (s.entries[i]?.map (·.stage)).toList
  | (u, _) :: past, s, i =>
    match s.entries[i]? with
    | none => stages past u i
    | some e =>
      if (stages past u i).getLast? = some e.stage then stages past u i
      else stages past u i ++ [e.stage]

variable {s t u : Machine D} {i : Nat} {e f : Entry D} {bound : Option Nat} {kind : Kind}
  {permits : Option Permits} {a : Act D} {past later before : List (Machine D × Act D)}

theorem lingers_of_same (he : t.entries = s.entries) (hp : t.permits = s.permits)
    (hr : t.ready = s.ready) (hl : t.live = s.live) (hpush : Pushes [] s t) : Lingers s t where
  steady := .same he hp hr
  live := hl
  pushes := hpush
  newcomer hs hf := by
    rw [he] at hf
    cases hs.symm.trans hf

/-- What comes to slots by hand leaves them where they are: what it sets off is still to be done. -/
theorem Move.lingers (m : Move D) (hm : ∀ n, m ≠ .machine n) (hc : m ≠ .closePermits)
    (s : Machine D) : Lingers s (m.begin s) := by
  have one {w : Work D} (hw : w.isCommon = true ∧ w.begun? = none) : Lingers s (s.push [w]) :=
    lingers_of_same rfl rfl rfl rfl (.plain (l := [w]) rfl (by simpa using hw))
  have nothing {a : Admission} : Lingers s { s with admission := a } :=
    lingers_of_same rfl rfl rfl rfl (.nothing rfl)
  cases m with
  | make kind job =>
      have hnew : (s.newSlot kind job).entries.length = s.entries.length + 1 :=
        List.length_append
      refine ⟨⟨rfl, List.Subset.refl _, _, List.map_append, ?_⟩, rfl, .nothing rfl,
        fun {i f} hs hf => ?_⟩
      · simp [Entry.station, Entry.queued]
      · have hlt := (List.getElem?_eq_some_iff.mp hf).1
        rw [List.getElem?_eq_none_iff] at hs
        obtain rfl : i = s.entries.length := by
          simp only [Move.begin] at hlt
          omega
        simp only [Move.begin, newSlot, List.getElem?_concat_length] at hf
        obtain rfl := Option.some.inj hf
        exact .queued rfl rfl rfl ⟨job, rfl⟩
  | dispatch | chain => exact one ⟨rfl, rfl⟩
  | cancel i =>
      simp only [Move.begin]
      split
      · exact one ⟨rfl, rfl⟩
      · exact nothing
  | trip j =>
      have hst := steady_cancelThen j [] s
      have hlen : (s.trip j).entries.length = s.entries.length := by
        unfold Machine.trip
        split
        · rfl
        · exact List.length_set
      refine ⟨⟨hst.permits, hst.ready, hst.kept⟩, live_cancelThen j [] s,
        .nothing (work_trip j s), fun {i f} hs hf => ?_⟩
      have hlt : i < (s.trip j).entries.length := (List.getElem?_eq_some_iff.mp hf).1
      rw [List.getElem?_eq_none_iff] at hs
      omega
  | admitRead i | admitWrite i =>
      simp only [Move.begin]
      split
      · exact nothing
      · exact nothing
  | nextSeq | reject | prune | close => exact nothing
  | closePermits => exact absurd rfl hc
  | machine n => exact absurd rfl (hm n)

/-- The runtime goes away, and nothing is done to any slot yet. -/
structure Loses (s t : Machine D) : Prop where
  entries : t.entries = s.entries
  live : t.live = false
  closing : t.closing? = s.closing?

/-- What one step does keeps all slots on their way. Every slot makes a passage, unless the runtime
goes away. -/
theorem Act.charted (h : Charted bound s) (ha : a.Enabled s) :
    Charted bound (a.apply s) ∧ (Passes s (a.apply s) ∨ Loses s (a.apply s)) := by
  cases a with
  | item w =>
      obtain ⟨rest, hw⟩ := List.head?_eq_some_iff.mp ha
      rw [apply, hw]
      exact ⟨h.exec hw, .inl (exec_passes h.metered hw)⟩
  | move m =>
  have hw : s.work = [] := ha
  by_cases hm : ∃ n, m = .machine n
  · obtain ⟨n, rfl⟩ := hm
    refine ⟨h.begin hw n, ?_⟩
    by_cases hl : ∃ l, n = .lose l
    · obtain ⟨l, rfl⟩ := hl
      simp only [apply, Move.begin, Machine.Move.begin]
      split
      · exact .inr ⟨rfl, rfl, rfl⟩
      · exact .inl (.refl s)
    · exact .inl (begin_passes h.metered h.phase hw n fun l hn => hl ⟨l, hn⟩)
  by_cases hc : m = .closePermits
  · subst hc
    obtain ⟨he, _, _, hwork⟩ := frame_closePermits s
    have hp : Passes s s.closePermits := passes_closePermits he (live_closePermits s) rfl rfl hw
      (by simp [hwork, hw])
    exact ⟨h.clears hw hp h.metered.closePermits (Pushes.nothing hwork).clears, .inl hp⟩
  · have hl := Move.lingers m (fun n hn => hm ⟨n, hn⟩) hc s
    exact ⟨h.lingers hw hl, .inl hl.passes⟩

/-- Nothing that comes to slots by hand tells of a beginning. -/
theorem Move.tells (m : Move D) (hm : ∀ n, m ≠ .machine n) (s : Machine D) :
    Tells none s (m.begin s) := by
  cases m with
  | make kind job =>
      have hl := Move.lingers (.make kind job) (by simp) (by simp) s
      refine hl.tells rfl fun hs f hf k hk => ?_
      obtain hf | hf := List.mem_append.mp hf
      · exact hs f hf k hk
      · obtain rfl := List.mem_singleton.mp hf
        simp [Entry.queued, Request.register, Cell.register, Cell.continuations, Cell.empty] at hk
        obtain rfl | rfl := hk <;> rfl
  | trip i => exact (resembles_trip i s).tells
  | closePermits =>
      exact Resembles.tells (.same (frame_closePermits s).1 (events_closePermits s))
  | cancel | admitRead | admitWrite =>
      simp only [Move.begin]
      split
      · exact Resembles.tells (.same rfl rfl)
      · exact Resembles.tells (.same rfl rfl)
  | machine n => exact absurd rfl (hm n)
  | _ => exact Resembles.tells (.same rfl rfl)

theorem Act.told (h : Told s) (hc : Charted bound s) (ha : a.Enabled s) : Told (a.apply s) := by
  cases a with
  | item w =>
      obtain ⟨rest, hw⟩ := List.head?_eq_some_iff.mp ha
      rw [apply, hw]
      exact h.exec hc hw
  | move m =>
  have hw : s.work = [] := ha
  by_cases hm : ∃ n, m = .machine n
  · obtain ⟨n, rfl⟩ := hm
    exact h.begin hc hw n
  have htells := Move.tells m (fun n hn => hm ⟨n, hn⟩) s
  refine h.tells htells ?_
  by_cases hp : m = .closePermits
  · subst hp
    refine h.silent_of_clears (Pushes.nothing ?_).clears
    exact (frame_closePermits s).2.2.2
  · exact h.silent_of_clears (Move.lingers m (fun n hn => hm ⟨n, hn⟩) hp s).pushes.clears

namespace Chronicle

theorem charted (h : Chronicle (Permits.ofBound bound) past s) : Charted bound s := by
  induction h with
  | start => exact charted_start bound
  | next _ ha ih => exact (Act.charted ih ha).1

theorem told (h : Chronicle (Permits.ofBound bound) past s) : Told s := by
  induction h with
  | start =>
      exact ⟨fun e he => by simp [Machine.start] at he, fun w hw => by simp [Machine.start] at hw,
        fun i => by simp [Machine.begun, Machine.hasBegun, Machine.start]⟩
  | next h ha ih => exact Act.told ih h.charted ha

/-- What was done before an act, and after it. -/
theorem split (h : Chronicle permits (later ++ (u, a) :: before) s) :
    Chronicle permits before u ∧ a.Enabled u := by
  induction later generalizing s with
  | nil =>
      cases h with
      | next h ha => exact ⟨h, ha⟩
  | cons p later ih =>
      cases h with
      | next h ha => exact ih h

end Chronicle

/-- A job of this kind cannot be started: the runtime was lost, or the permits that it needs were
closed. -/
def Denies (s : Machine D) (kind : Kind) : Prop :=
  s.live = false ∨ kind = .read ∧ s.closing? = some true

theorem Act.denies (h : Charted bound s) (ha : a.Enabled s) (hs : Denies s kind) :
    Denies (a.apply s) kind := by
  obtain hp | hl := (Act.charted h ha).2
  · refine hs.imp hp.live.trans (And.imp_right fun hc => ?_)
    obtain hsame | hclosed := hp.closing
    · exact hsame.trans hc
    · exact hclosed
  · exact .inl hl.live

/-- A single thread that makes and drives slots has a chronicle. -/
theorem Chronicle.of_crew {c : Crew D} {moves : List (Move D)}
    (h : Crew.History Move.begin permits 1 moves c) :
    c = .single c.machine ∧ ∃ past, Chronicle permits past c.machine := by
  induction h with
  | start => exact ⟨rfl, [], .start⟩
  | @next past ms c d h hs ih =>
      obtain ⟨hc, hist, hpast⟩ := ih
      have first {k : Nat} {l : List (Work D)} (hk : c.threads[k]? = some l) :
          k = 0 ∧ c.machine.work = l := by
        rw [hc, Crew.single] at hk
        cases k with
        | zero => exact ⟨rfl, Option.some.inj hk⟩
        | succ k => cases hk
      have put (t : Machine D) : c.put 0 t = .single t := by
        rw [hc]
        rfl
      cases hs with
      | @work k w rest hk =>
          obtain ⟨rfl, hw⟩ := first hk
          have hnext := hpast.next (a := .item w) (by rw [Act.Enabled, hw]; rfl)
          rw [Act.apply, hw] at hnext
          exact ⟨put _, _, hnext⟩
      | @move k m hk =>
          obtain ⟨rfl, hw⟩ := first hk
          have hseen : c.seen [] = c.machine := by
            rw [← hw]
            rfl
          rw [hseen]
          exact ⟨put _, _, hpast.next (a := .move m) hw⟩

/-- So has every state of a script for slots. -/
theorem Attained.exists_chronicle (h : Attained permits s) : ∃ past, Chronicle permits past s := by
  obtain ⟨⟨moves, hmoves⟩, _⟩ := h
  exact (Chronicle.of_crew hmoves).2

theorem atWork_eq (he : s.entries[i]? = some e) : atWork s i = decide (e.task = .working) := by
  simp [atWork, he]

theorem starts_cons (s : Machine D) (a : Act D) (past : List (Machine D × Act D)) (i : Nat) :
    starts ((s, a) :: past) i =
      starts past i + if atWork s i = false ∧ atWork (a.apply s) i = true then 1 else 0 := by
  simp [starts, List.countP_cons]

/-- Where a slot comes from in one step. -/
theorem Act.entry_cases (h : Charted bound s) (ha : a.Enabled s)
    (hf : (a.apply s).entries[i]? = some f) :
    (∃ e new, s.entries[i]? = some e ∧
      e.station.Passage s (a.apply s) i new f.station ∧ (a.apply s).live = s.live ∧
      ((a.apply s).closing? = s.closing? ∨ (a.apply s).closing? = some true)) ∨
    s.entries[i]? = some f ∧ Loses s (a.apply s) ∨
    s.entries[i]? = none ∧ f.station.Phase (a.apply s) i ∧ f.task = .unspawned ∧
      f.stage ≠ .vacated := by
  obtain hp | hl := (Act.charted h ha).2
  · cases he : s.entries[i]? with
    | none => exact .inr (.inr ⟨rfl, hp.newcomer he hf⟩)
    | some e =>
        obtain ⟨g, new, hg, hpass, _⟩ := hp.entry he
        obtain rfl := Option.some.inj (hf.symm.trans hg)
        exact .inl ⟨e, new, rfl, hpass, hp.live, hp.closing⟩
  · exact .inr (.inl ⟨hl.entries ▸ hf, hl⟩)

namespace Chronicle

/-- A slot that is not there yet has come to no stage. -/
theorem of_none (h : Chronicle (Permits.ofBound bound) past s) (hn : s.entries[i]? = none) :
    starts past i = 0 ∧ stages past s i = [] := by
  induction h with
  | start => exact ⟨rfl, by rw [stages, hn]; rfl⟩
  | @next past s a h ha ih =>
      have hs : s.entries[i]? = none := by
        cases he : s.entries[i]? with
        | none => rfl
        | some e =>
            obtain hp | hl := (Act.charted h.charted ha).2
            · obtain ⟨f, _, hf, _⟩ := hp.entry he
              cases hn.symm.trans hf
            · rw [hl.entries] at hn
              cases hn.symm.trans he
      obtain ⟨hstarts, hstages⟩ := ih hs
      refine ⟨?_, ?_⟩
      · rw [starts_cons, hstarts]
        simp [atWork, hn]
      · simp only [stages, hn, hstages]

/-- How often a job was started can be told from where its slot stands. -/
theorem tally (h : Chronicle (Permits.ofBound bound) past s) (he : s.entries[i]? = some e) :
    e.station.Tally s (starts past i) := by
  induction h generalizing e with
  | start => simp [Machine.start] at he
  | @next past s a h ha ih =>
      rw [starts_cons, atWork_eq he]
      obtain ⟨b, new, hb, hpass, hl, hc⟩ | ⟨hb, hl⟩ | ⟨hn, hphase, ht, _⟩ :=
        Act.entry_cases h.charted ha he
      · have htally := hpass.tally (h.charted.slot hb) hl hc (ih hb)
        simp only [atWork_eq hb, decide_eq_false_iff_not, decide_eq_true_eq]
        exact htally
      · have hmono : e.station.Tally (a.apply s) (starts past i) :=
          (ih hb).mono (fun hlive => by cases hl.live.symm.trans hlive) (.inl hl.closing)
        simpa [atWork_eq hb] using hmono
      · have hidle : e.callback.isUnderway = false ∧ e.callback ≠ .spent := by
          obtain hb | ⟨job, hb⟩ := hphase.of_unspawned ht <;>
            simp [show e.callback = _ from hb, Callback.isUnderway]
        exact .none (by simp [(h.of_none hn).1, ht]) (by simp [Entry.station, ht]) hidle.1 hidle.2
          (by simp [Entry.station, ht])

/-- The stages that a slot has come to can be told from where it stands. -/
theorem stages_eq (h : Chronicle (Permits.ofBound bound) past s) (he : s.entries[i]? = some e) :
    stages past s i = e.station.route := by
  induction h generalizing e with
  | start => simp [Machine.start] at he
  | @next past s a h ha ih =>
      simp only [stages, he]
      obtain ⟨b, new, hb, hpass, _⟩ | ⟨hb, _⟩ | ⟨hn, hphase, ht, hv⟩ :=
        Act.entry_cases h.charted ha he
      · rw [ih hb, Station.getLast?_route, hpass.route (h.charted.slot hb)]
        simp only [Option.some.injEq]
        rfl
      · rw [ih hb, Station.getLast?_route]
        exact if_pos rfl
      · rw [(h.of_none hn).2]
        have ht : e.station.task = .unspawned := ht
        cases hphase with
        | refused hs | queued hs =>
            have hstage : e.stage = _ := hs
            simp [Station.route, hs, hstage]
        | skipped hs => exact absurd hs hv
        | waiting _ _ hw => simp [ht, Task.isWaiting] at hw
        | working _ _ hw | ended hw => cases ht.symm.trans hw

/-- What bars jobs is never undone. -/
theorem denies (h : Chronicle (Permits.ofBound bound) (later ++ (u, a) :: before) s)
    (hu : Denies u kind) : Denies s kind := by
  induction later generalizing s with
  | nil =>
      cases h with
      | next h ha => exact Act.denies h.charted ha hu
  | cons p later ih =>
      cases h with
      | next h ha => exact Act.denies h.charted ha (ih h)

/-- Once jobs of its kind are barred, a slot has its job started no more. -/
theorem starts_of_denies (h : Chronicle (Permits.ofBound bound) (later ++ (u, a) :: before) s)
    (he : s.entries[i]? = some e) (hu : Denies u e.kind) :
    starts (later ++ (u, a) :: before) i = starts before i := by
  -- An act that comes to a machine where the job is barred does not start it.
  have still {v : Machine D} {c : Act D} {past : List (Machine D × Act D)} {f : Entry D}
      (hp : Chronicle (Permits.ofBound bound) past v) (hc : c.Enabled v)
      (hf : (c.apply v).entries[i]? = some f) (hv : Denies v f.kind) :
      starts ((v, c) :: past) i = starts past i ∧
        ((∃ b, v.entries[i]? = some b ∧ b.kind = f.kind) ∨ v.entries[i]? = none) := by
    rw [starts_cons, atWork_eq hf]
    obtain ⟨b, new, hb, hpass, _⟩ | ⟨hb, _⟩ | ⟨hn, _, ht, _⟩ := Act.entry_cases hp.charted hc hf
    · have hkind : f.kind = b.kind := hpass.kind
      refine ⟨?_, .inl ⟨b, hb, hkind.symm⟩⟩
      rw [atWork_eq hb, if_neg, Nat.add_zero]
      rintro ⟨hold, hnew⟩
      obtain ⟨hlive, hopen⟩ := hpass.starts (hp.charted.slot hb)
        (of_decide_eq_false hold) (of_decide_eq_true hnew)
      obtain hlost | ⟨hk, hshut⟩ := hv
      · cases hlost.symm.trans hlive
      · exact hopen (hkind.symm.trans hk) hshut
    · exact ⟨by simp [atWork_eq hb], .inl ⟨f, hb, rfl⟩⟩
    · exact ⟨by simp [ht], .inr hn⟩
  induction later generalizing s e with
  | nil =>
      cases h with
      | next h ha => exact (still h ha he hu).1
  | cons p later ih =>
      cases h with
      | @next _ v c h ha =>
          obtain ⟨hsame, ⟨b, hb, hk⟩ | hn⟩ := still h ha he (h.denies hu)
          · exact hsame.trans (ih h hb (hk ▸ hu))
          · have hzero := (h.of_none hn).1
            have hle : starts before i ≤ starts (later ++ (u, a) :: before) i :=
              (List.sublist_append_of_sublist_right (List.sublist_cons_self _ _)).countP_le
            exact hsame.trans (Nat.le_antisymm (hzero ▸ Nat.zero_le _) hle)

end Chronicle

/-- What is known of the life of slot `i`. -/
structure Lifecycle (bound : Option Nat) (past : List (Machine D × Act D)) (s : Machine D) (i : Nat)
    (e : Entry D) : Prop where
  /-- A slot leaves the queue for the runtime or vacates at once, and what was dispatched vacates
  later. -/
  path : stages past s i ∈ [[Stage.queued], [.queued, .vacated], [.queued, .dispatched],
    [.queued, .dispatched, .vacated]] ∧ (stages past s i).getLast? = some e.stage
  /-- Between steps the vacancy is open just when the slot is vacated. -/
  vacancy : s.work = [] → (e.isVacated = true ↔ e.stage = .vacated)
  /-- The job of a slot that is vacated straight from the queue never runs. -/
  skipped : stages past s i = [.queued, .vacated] → starts past i = 0
  once : starts past i ≤ 1
  /-- A job that is seen to begin was started. -/
  begun : s.begun.count i ≤ starts past i
  /-- By the time that a slot vacates which was dispatched, its job was started, whether or not it
  was cancelled, unless the runtime was lost or the permits were closed to a read. -/
  started : stages past s i = [.queued, .dispatched, .vacated] →
    starts past i = 1 ∧ (s.live = true → s.begun.count i = 1) ∨
      starts past i = 0 ∧ Denies s e.kind
  /-- Once the runtime was lost, or the permits were closed to a read, the job is not started any
  more. -/
  barred : ∀ {later before : List (Machine D × Act D)} {u : Machine D} {a : Act D},
    past = later ++ (u, a) :: before → Denies u e.kind → starts past i = starts before i
  /-- From the start of its job until the job is over the slot stays dispatched, while the runtime
  is there. -/
  occupied : starts past i = 1 → e.stage = .dispatched ∨ e.callback = .spent ∨ s.live = false
  /-- Between steps a slot that is dispatched has its job under way, or is about to be polled, or
  waits for a permit while as many reads as may hold one. -/
  awaited : s.work = [] → e.stage = .dispatched → s.live = true ∧
    (e.callback.isUnderway = true ∨ i ∈ s.ready.tasks ∨
      s.InQueue i ∧ e.kind = .read ∧ bound = some s.holders)

/-- Every slot runs its course, whatever comes to it: it moves from the queue to its vacancy and
never back, and its job is started once at most, and once if it is to be dispatched at all. -/
theorem lifecycle_of_chronicle (h : Chronicle (Permits.ofBound bound) past s)
    (he : s.entries[i]? = some e) (hr : e.stage ≠ .refused) : Lifecycle bound past s i e := by
  have hphase : e.station.Phase s i := h.charted.phase he
  have htally : e.station.Tally s (starts past i) := h.tally he
  have hstages : stages past s i = e.station.route := h.stages_eq he
  have hseen : s.begun.count i = if e.callback.hasBegun = true then 1 else 0 := by
    rw [h.told.begun, hasBegun_eq he]
  have hbegun (hb : e.callback.hasBegun = true) : starts past i = 1 := by
    refine htally.begun (.inr ?_)
    show e.callback.isUnderway = true ∨ e.callback = .spent
    cases hc : e.callback <;> simp_all [Callback.hasBegun, Callback.isUnderway]
  constructor
  case path =>
    rw [hstages]
    exact ⟨Station.route_mem hr, e.station.getLast?_route⟩
  case vacancy =>
    intro hw
    have none {w : Work D} : w ∉ s.work := by simp [hw]
    cases hphase with
    | refused hs hv | queued hs hv | waiting hs hv | working hs hv =>
        exact iff_of_false (Bool.eq_false_iff.mp hv) fun hn => by cases hs.symm.trans hn
    | skipped hs hv => exact iff_of_true (hv.resolve_right none) hs
    | ended _ hs =>
        obtain ⟨hs, hv⟩ | ⟨_, _, hw⟩ := hs
        · exact iff_of_true hv hs
        · exact (hw.elim none none).elim
  case skipped =>
    intro hp
    exact htally.fresh (.inl (Station.unspawned_of_route (hstages.symm.trans hp)))
  case once => exact htally.le_one
  case begun =>
    rw [hseen]
    split
    · exact Nat.le_of_eq (hbegun ‹_›).symm
    · exact Nat.zero_le _
  case started =>
    intro hp
    obtain ⟨hvac, htask⟩ := Station.vacated_of_route (hstages.symm.trans hp)
    cases hphase with
    | refused _ _ hn | queued _ _ hn | skipped _ _ hn => exact absurd hn htask
    | waiting hs | working hs => cases hs.symm.trans hvac
    | ended ht =>
        refine (htally.ended ht).imp_left (And.imp_right fun hspent hlive => ?_)
        rw [hseen, show e.callback = .spent from hspent hlive]
        rfl
  case barred =>
    intro later before u a hp hu
    subst hp
    exact h.starts_of_denies he hu
  case occupied =>
    intro hn
    have fresh {p : Prop} (ht : e.task = .unspawned) : p := by
      cases hn.symm.trans (htally.fresh (.inl ht))
    cases hphase with
    | refused _ _ ht | queued _ _ ht | skipped _ _ ht => exact fresh ht
    | waiting hs | working hs => exact .inl hs
    | ended ht =>
        obtain ⟨_, hspent⟩ | ⟨hzero, _⟩ := htally.ended ht
        · cases hl : s.live with
          | true => exact .inr (.inl (hspent hl))
          | false => exact .inr (.inr rfl)
        · cases hn.symm.trans hzero
  case awaited => exact h.charted.awaited he

/-- Carries out up to `n` work items. -/
def carry : Nat → List (Machine D × Act D) × Machine D → List (Machine D × Act D) × Machine D
  | 0, p => p
  | n + 1, (past, s) =>
    match s.work with
    | [] => (past, s)
    | w :: _ => carry n ((s, .item w) :: past, (Act.item w).apply s)

/-- Moves that come one after the other, each with up to `n` work items carried out after it. -/
def follow (n : Nat) : List (Move D) → List (Machine D × Act D) × Machine D →
    List (Machine D × Act D) × Machine D
  | [], p => p
  | m :: ms, (past, s) =>
    if s.work.isEmpty then
      follow n ms (carry n ((s, .move m) :: past, (Act.move m).apply s))
    else (past, s)

theorem Chronicle.carry (n : Nat) {p : List (Machine D × Act D) × Machine D}
    (h : Chronicle permits p.1 p.2) : Chronicle permits (carry n p).1 (carry n p).2 := by
  induction n generalizing p with
  | zero => exact h
  | succ n ih =>
      obtain ⟨past, s⟩ := p
      unfold Slot.carry
      split
      · exact h
      · rename_i w rest hw
        exact ih (h.next (a := .item w) (by rw [Act.Enabled, hw]; rfl))

theorem Chronicle.follow (n : Nat) (ms : List (Move D)) {p : List (Machine D × Act D) × Machine D}
    (h : Chronicle permits p.1 p.2) : Chronicle permits (follow n ms p).1 (follow n ms p).2 := by
  induction ms generalizing p with
  | nil => exact h
  | cons m ms ih =>
      obtain ⟨past, s⟩ := p
      unfold Slot.follow
      split
      · rename_i hw
        exact ih (.carry n (h.next (a := .move m) (List.isEmpty_iff.mp hw)))
      · exact h

/-- A write waits for a read that is cancelled when it was dispatched, and is cancelled itself while
it is queued. -/
def journey : List (Machine Unit × Act Unit) × Machine Unit :=
  follow 8 [.make .read (.latched .nothing), .make .write (.latched .nothing), .chain 1 [0],
    .dispatch 0, .cancel 0, .cancel 1, .machine (.poll 0), .machine (.release 0),
    .machine (.poll 0)] ([], .start (Permits.ofBound (some 1)))

theorem lifecycle_of_chronicle_journey :
    stages journey.1 journey.2 0 = [.queued, .dispatched, .vacated] ∧ starts journey.1 0 = 1 ∧
      stages journey.1 journey.2 1 = [.queued, .vacated] ∧ starts journey.1 1 = 0 := by
  have hhist : Chronicle (Permits.ofBound (some 1)) journey.1 journey.2 := .follow 8 _ .start
  have hread := lifecycle_of_chronicle hhist (i := 0) rfl (by decide)
  have hwrite := lifecycle_of_chronicle hhist (i := 1) rfl (by decide)
  have hpath : stages journey.1 journey.2 0 = [.queued, .dispatched, .vacated] := rfl
  have hskip : stages journey.1 journey.2 1 = [.queued, .vacated] := rfl
  refine ⟨hpath, ?_, hskip, hwrite.skipped hskip⟩
  obtain ⟨hone, _⟩ | ⟨_, hdenied⟩ := hread.started hpath
  · exact hone
  · obtain hlost | ⟨_, hclosed⟩ := hdenied
    · cases hlost
    · cases hclosed

end Slot

end RequestScheduler
