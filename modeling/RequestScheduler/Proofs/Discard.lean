import RequestScheduler.Proofs.Callbacks
import RequestScheduler.Proofs.Mute

/-!
# Discarded results

Two machines match when they are the same but for the results of callbacks and for their logs
(`Matches`). Moves that publish no result, or the same in both, keep them matching; so does the poll
of a cancelled request, whatever its callback returned (`Twins.apply`). Therefore, if the same moves
come in the same order in two runs, and only one request has a callback that ends differently, and
that request is cancelled by the time its callback has returned, there is the same to see in both
after every move (`results_discarded`). All that is left of the result is a panic in the log.
-/

namespace RequestScheduler

/-- What there is to see of a request, of its future and of its slot. -/
structure Face (D : Type) where
  kind : Kind
  seq : UInt64
  status : Status
  outcome : Option (Outcome (Value D))
  /-- The outcome that is still there to be taken. -/
  offer : Option (Outcome (Value D))
  tripped : Bool
  wakers : List Nat
  stage : Stage
  isVacated : Bool
  task : Task
  /-- Whether the callback was called. -/
  hasBegun : Bool
  released : Bool
  future : Hold

/-- What there is to see of an entry. -/
def Entry.face {D : Type} (e : Entry D) : Face D where
  kind := e.kind
  seq := e.seq
  status := e.request.status
  outcome := e.request.cell.value?
  offer := e.request.take.1
  tripped := e.request.tripped
  wakers := e.request.cell.wakers
  stage := e.stage
  isVacated := e.isVacated
  task := e.task
  hasBegun := e.callback.hasBegun
  released := e.released
  future := e.future

@[simp] theorem Entry.face_mute {D : Type} (e : Entry D) : e.mute.face = e.face := by
  simp [face, mute, isVacated, Request.take]

namespace Machine

variable {D : Type} {s t : Machine D} {permits : Option Permits} {i x : Nat} {m n : Move D}
  {o p : Outcome (Value D)} {e f : Entry D}

/-- The machines are the same but for results that were not published, and for what was logged. -/
def Matches (s t : Machine D) : Prop :=
  { s with trace := [] }.mute [] = { t with trace := [] }.mute []

/-- What is done to matching machines, and to the muted ones alike, keeps them matching and logs
the same in both. -/
theorem Matches.map {f g k : Machine D → Machine D} (h : s.Matches t)
    (hf : ∀ recent older, (f { s with trace := recent }).mute older =
      k ({ s with trace := recent }.mute older))
    (hg : ∀ recent older, (g { t with trace := recent }).mute older =
      k ({ t with trace := recent }.mute older)) :
    (f s).Matches (g t) ∧
      ∃ recent, (f s).trace = recent ++ s.trace ∧ (g t).trace = recent ++ t.trace := by
  have split {u : Machine D} {f : Machine D → Machine D}
      (hf : ∀ recent older, (f { u with trace := recent }).mute older =
        k ({ u with trace := recent }.mute older)) :
      (f u).mute [] = (f { u with trace := [] }).mute u.trace := by
    rw [hf [] u.trace]
    refine (hf u.trace []).trans (congrArg k ?_)
    simp [mute]
  have hsame : (f { s with trace := [] }).mute [] = (g { t with trace := [] }).mute [] := by
    rw [hf, hg]
    exact congrArg k h
  have hs := split hf
  have ht := split hg
  have log {u : Machine D} (older : List TraceEvent) :
      (u.mute older).trace = u.trace ++ older := rfl
  have hrecent := congrArg Machine.trace hsame
  refine ⟨?_, (f { s with trace := [] }).trace, ?_, ?_⟩
  · have hclear := congrArg (fun u : Machine D => { u with trace := [] }) hsame
    have hs := congrArg (fun u : Machine D => { u with trace := [] }) hs
    have ht := congrArg (fun u : Machine D => { u with trace := [] }) ht
    exact hs.trans (hclear.trans ht.symm)
  · simpa [log] using congrArg Machine.trace hs
  · simp only [log, List.append_nil] at hrecent
    rw [hrecent]
    simpa [log] using congrArg Machine.trace ht

/-- Only a poll is a poll with all results struck out. -/
theorem Move.eq_poll_of_mute (h : m.mute = .poll i) : m = .poll i := by
  cases m <;> cases h
  rfl

namespace Matches

theorem symm (h : s.Matches t) : t.Matches s := Eq.symm h

theorem entries (h : s.Matches t) : s.entries.map Entry.mute = t.entries.map Entry.mute :=
  congrArg Machine.entries h

theorem ready (h : s.Matches t) : s.ready = t.ready := (congrArg Machine.ready h :)

/-- Neither the logs nor the agendas are what makes two machines match. -/
theorem with_ready (h : s.Matches t) (ready : Agenda) (l r : List TraceEvent) :
    Matches { s with ready, trace := l } { t with ready, trace := r } :=
  (congrArg (fun u : Machine D => { u with ready }) h :)

/-- A request that is in one of two matching machines is in the other. -/
theorem exists_of_entry (h : s.Matches t) (he : s.entries[i]? = some e) :
    ∃ f, t.entries[i]? = some f ∧ f.mute = e.mute := by
  have := congrArg (·[i]?) h.entries
  simp only [List.getElem?_map, he, Option.map_some] at this
  exact Option.map_eq_some_iff.mp this.symm

theorem entry (h : s.Matches t) (he : s.entries[i]? = some e) (hf : t.entries[i]? = some f) :
    e.mute = f.mute := by
  obtain ⟨g, hg, hge⟩ := h.exists_of_entry he
  obtain rfl := Option.some.inj (hf.symm.trans hg)
  exact hge.symm

/-- A callback that has returned in one of two matching machines is not to be called or to go on in
the other. -/
theorem not_ends {r : Result D} (h : s.Matches t) (hs : s.At i (·.callback = .returned o)) :
    ¬t.Ends i r := by
  rintro ⟨f, hf, body, hbody, rfl⟩
  obtain ⟨e, he, hret⟩ := hs
  have hcallback : e.callback.mute = f.callback.mute := (congrArg Entry.callback (h.entry he hf) :)
  rw [hret] at hcallback
  cases hc : f.callback with
  | returned => simp [hc, Callback.body?] at hbody
  | _ => simp [hc, Callback.mute] at hcallback

/-- The task of a request has something to publish in one of two matching machines if it has in the
other. -/
theorem hears (h : s.Matches t) (hs : s.Hears i o) : ∃ p, t.Hears i p := by
  obtain ⟨e, he, ht, hc⟩ := hs
  obtain ⟨f, hf, hfe⟩ := h.exists_of_entry he
  have htask : f.task = e.task := (congrArg Entry.task hfe :)
  have hcallback : f.callback.mute = e.callback.mute := congrArg Entry.callback hfe
  rw [hc] at hcallback
  cases hp : f.callback with
  | returned p => exact ⟨p, f, hf, htask.trans ht, hp⟩
  | _ => simp [hp, Callback.mute] at hcallback

end Matches

/-! ### Publishing a result -/

/-- The task of a request publishes what its callback returned. -/
def hear (i : Nat) (o : Outcome (Value D)) (s : Machine D) : Machine D :=
  match s.entries[i]? with
  | none => s
  | some e =>
    (s.put i { e with callback := .spent }).push
      (panicNote e.kind o ++ [.settle i o, .endTask i])

theorem mute_hear {older : List TraceEvent} (s : Machine D) :
    (s.hear i o).mute older = (s.mute older).hear i o := by
  unfold hear
  rw [getElem?_mute]
  cases s.entries[i]? with
  | none => rfl
  | some e =>
      simp [Entry.mute, Callback.mute, panicNote, Function.comp_def, Work.mute]

theorem poll_of_hears (h : s.Hears i o) : s.poll i = s.hear i o := by
  obtain ⟨e, he, ht, hc⟩ := h
  simp [poll, continueJob, hear, he, ht, hc]

/-- The poll of a task, if the runtime has it on its agenda, that publishes `o`. -/
def attend (i : Nat) (o : Outcome (Value D)) (s : Machine D) : Machine D :=
  match s.ready.pick? i with
  | none => s
  | some rest => { s with ready := rest }.hear i o

theorem mute_attend {older : List TraceEvent} (s : Machine D) :
    (s.attend i o).mute older = (s.mute older).attend i o := by
  unfold attend
  rw [ready_mute]
  cases s.ready.pick? i with
  | none => rfl
  | some rest => exact mute_hear _

theorem begin_poll_of_hears (h : s.Hears i o) : (Move.poll i).begin s = s.attend i o := by
  simp only [Move.begin, attend]
  cases s.ready.pick? i with
  | none => rfl
  | some rest => exact poll_of_hears (s := { s with ready := rest }) h

/-- A cancelled request publishes its cancellation, whatever its callback returned. -/
theorem settle_of_tripped (h : s.At i (·.request.tripped = true)) :
    s.settle i o = s.settle i (.error .cancelled) := by
  obtain ⟨e, he, ht⟩ := h
  simp [settle, he, Request.publish, Request.resolve, ht]

theorem drain_push_note (l : TraceEvent) (items : List (Work D)) (s : Machine D) :
    (s.push (.note l :: items)).drain = ((s.note l).push items).drain :=
  drain_of_step? rfl

theorem drain_push_settle_of_tripped (h : s.At i (·.request.tripped = true))
    (items : List (Work D)) :
    (s.push (.settle i o :: items)).drain =
      (s.push (.settle i (.error .cancelled) :: items)).drain := by
  have hsettle : exec (.settle i o) (s.push items) =
      exec (.settle i (.error .cancelled)) (s.push items) := settle_of_tripped h
  exact (drain_of_step? rfl).trans ((congrArg drain hsettle).trans (drain_of_step? rfl).symm)

/-- Of the result of a cancelled request nothing is left but the report of a panic. -/
theorem drain_hear_of_tripped (he : s.entries[i]? = some e) (ht : e.request.tripped = true) :
    (s.hear i o).drain = ({ s with trace := panicTrace e.kind o ++ s.trace }.hear i
      (.error .cancelled)).drain := by
  have htripped (u : Machine D) (hu : u.entries = s.entries) :
      (u.put i { e with callback := .spent }).At i (·.request.tripped = true) :=
    .of_set (hu ▸ he) rfl ht
  have hear_eq (o : Outcome (Value D)) (u : Machine D) (hu : u.entries = s.entries) : u.hear i o =
      (u.put i { e with callback := .spent }).push
        (panicNote e.kind o ++ [.settle i o, .endTask i]) := by
    rw [hear, hu, he]
  rw [hear_eq o s rfl, hear_eq _ { s with trace := panicTrace e.kind o ++ s.trace } rfl]
  rcases o with (_ | _ | message | _) | _
  case error.panicked =>
    have hnoted := htripped { s with trace := .panicked e.kind message :: s.trace } rfl
    exact (drain_push_note _ _ _).trans (drain_push_settle_of_tripped hnoted [.endTask i])
  all_goals exact drain_push_settle_of_tripped (htripped s rfl) [.endTask i]

theorem apply_poll_of_hears (h : s.Hears i o) : (Move.poll i).apply s = (s.attend i o).drain := by
  rw [Move.apply, begin_poll_of_hears h]

/-- The task of a cancelled request is polled after its callback has returned. -/
theorem apply_poll_of_tripped {rest : Agenda} (h : s.Hears i o)
    (hpick : s.ready.pick? i = some rest) (he : s.entries[i]? = some e)
    (ht : e.request.tripped = true) :
    (Move.poll i).apply s = ({ s with
      ready := rest
      trace := panicTrace e.kind o ++ s.trace }.hear i (.error .cancelled)).drain := by
  rw [apply_poll_of_hears h, attend, hpick]
  exact drain_hear_of_tripped (s := { s with ready := rest }) he ht

/-- Once a result was published its callback is spent. -/
theorem spent_of_hears {rest : Agenda} (h : s.Hears i o) (hpick : s.ready.pick? i = some rest)
    (he : s.entries[i]? = some e) :
    ((Move.poll i).begin s).At i fun f => f.callback = .spent ∧ f.kind = e.kind := by
  rw [begin_poll_of_hears h, attend, hpick]
  refine .of_set (s := s) (f := { e with callback := .spent }) he ?_ ⟨rfl, rfl⟩
  simp [hear, he, push, put]

/-! ### Two runs -/

/-- What two runs have logged is the same, apart from a place where each may report a panic of the
request `x`, whose callback is over by then. -/
def SameLog (x : Nat) (s t : Machine D) : Prop :=
  s.trace = t.trace ∨ s.At x fun e => e.callback = .spent ∧
    ∃ (recent older : List TraceEvent) (o p : Outcome (Value D)),
      s.trace = recent ++ panicTrace e.kind o ++ older ∧
      t.trace = recent ++ panicTrace e.kind p ++ older

/-- Two machines at rest that are told apart by what the callback of `x` returned, at most. -/
structure Twins (x : Nat) (s t : Machine D) : Prop where
  isMatch : s.Matches t
  log : SameLog x s t

theorem SameLog.grow {u v : Machine D} (h : SameLog x s t) (hg : s.Grows u)
    (hr : ∃ recent, u.trace = recent ++ s.trace ∧ v.trace = recent ++ t.trace) : SameLog x u v := by
  obtain ⟨later, hu, hv⟩ := hr
  obtain h | ⟨e, he, hspent, recent, older, o, p, hs, ht⟩ := h
  · exact .inl (by rw [hu, hv, h])
  · obtain ⟨f, hf, hef⟩ := hg.entry he
    refine .inr ⟨f, hf, hef.spent hspent, later ++ recent, older, o, p, ?_, ?_⟩
    · rw [hu, hs, hef.kind]
      simp
    · rw [hv, ht, hef.kind]
      simp

/-- The callbacks of all requests but `x` that have returned did so with the same outcome. -/
def Unanimous (x : Nat) (s t : Machine D) : Prop := ∀ {i : Nat} {o p : Outcome (Value D)}, i ≠ x →
  s.At i (·.callback = .returned o) → t.At i (·.callback = .returned p) → o = p

/-- Callbacks that end with the same result return the same in matching machines. -/
theorem Unanimous.apply (h : Unanimous x s t) (hst : s.Matches t)
    (happly : (m.apply s).Matches (n.apply t)) (hs : s.Valid) (ht : t.Valid) (hsw : s.work = [])
    (htw : t.work = []) (hothers : ∀ i q r, i ≠ x → s.Ends i q → t.Ends i r → q = r) :
    Unanimous x (m.apply s) (n.apply t) := by
  intro i o p hi hso htp
  obtain hso | ⟨q, hq, e, he, rfl⟩ := returned_of_apply hs hsw m hso
  · obtain htp | ⟨r, hr, _⟩ := returned_of_apply ht htw n htp
    · exact h hi hso htp
    · exact absurd hr (hst.not_ends hso)
  · obtain htp | ⟨r, hr, f, hf, rfl⟩ := returned_of_apply ht htw n htp
    · exact absurd hq (hst.symm.not_ends htp)
    · have hregister : (m.apply s).register = (n.apply t).register :=
        (congrArg Machine.register happly :)
      have hentry : e.request.tripped = f.request.tripped :=
        (congrArg (·.request.tripped) (happly.entry he hf) :)
      rw [hothers i q r hi hq hr, hregister, hentry]

namespace Twins

/-- What does the same to both keeps them twins. -/
theorem map {f g k : Machine D → Machine D} (h : Twins x s t) (hgrows : s.Grows (f s))
    (hf : ∀ recent older, (f { s with trace := recent }).mute older =
      k ({ s with trace := recent }.mute older))
    (hg : ∀ recent older, (g { t with trace := recent }).mute older =
      k ({ t with trace := recent }.mute older)) : Twins x (f s) (g t) :=
  have hmap := h.isMatch.map hf hg
  ⟨hmap.1, h.log.grow hgrows hmap.2⟩

/-- A move that publishes no result. -/
theorem apply_quiet (h : Twins x s t) (hg : s.Grows (m.apply s)) (hmn : m.mute = n.mute)
    (hs : ∀ i, m = .poll i → ∀ o, ¬s.Hears i o) (ht : ∀ i, n = .poll i → ∀ o, ¬t.Hears i o) :
    Twins x (m.apply s) (n.apply t) :=
  h.map (f := m.apply) (g := n.apply) (k := m.mute.apply) hg (fun _ _ => mute_apply m hs)
    fun _ _ => hmn ▸ mute_apply n ht

/-- The two publish the same. -/
theorem apply_hears (h : Twins x s t) (hg : s.Grows ((Move.poll i).apply s)) (hs : s.Hears i o)
    (ht : t.Hears i o) : Twins x ((Move.poll i).apply s) ((Move.poll i).apply t) := by
  rw [apply_poll_of_hears hs] at hg ⊢
  rw [apply_poll_of_hears ht]
  exact h.map (f := fun u => (u.attend i o).drain) (g := fun u => (u.attend i o).drain)
    (k := fun u => (u.attend i o).drain) hg (fun _ _ => by rw [mute_drain, mute_attend])
    fun _ _ => by rw [mute_drain, mute_attend]

/-- The results differ, but the request is cancelled: each run logs a panic at most. -/
theorem apply_tripped (h : Twins x s t) (hv : s.Valid) (hsw : s.work = []) (htw : t.work = [])
    (hs : s.Hears x o) (ht : t.Hears x p) (htripped : s.At x (·.request.tripped = true)) :
    Twins x ((Move.poll x).apply s) ((Move.poll x).apply t) := by
  have hready : s.ready = t.ready := h.isMatch.ready
  cases hpick : s.ready.pick? x with
  | none =>
      rw [apply_poll_of_hears hs, apply_poll_of_hears ht, attend, hpick, attend, ← hready, hpick,
        drain_of_atRest hsw, drain_of_atRest htw]
      exact h
  | some rest =>
      have hpick' : t.ready.pick? x = some rest := hready ▸ hpick
      obtain ⟨e, he, _, hreturned⟩ := id hs
      obtain ⟨f, hf, hfe⟩ := h.isMatch.exists_of_entry he
      have hkind : f.kind = e.kind := (congrArg Entry.kind hfe :)
      have hftripped : f.request.tripped = e.request.tripped :=
        (congrArg (·.request.tripped) hfe :)
      -- The callback has not been heard before, so that the logs are the same up to now.
      have hlog : s.trace = t.trace := by
        refine h.log.resolve_right ?_
        rintro ⟨e', he', hspent, _⟩
        obtain rfl := Option.some.inj (he.symm.trans he')
        cases hreturned.symm.trans hspent
      have hmatch := h.isMatch.with_ready rest (panicTrace e.kind o ++ s.trace)
        (panicTrace e.kind p ++ t.trace)
      have hspent : ((Move.poll x).apply s).At x fun f => f.callback = .spent ∧ f.kind = e.kind :=
        have hvalid := Run.valid (.single (.move (.poll x) hsw)) hv
        (spent_of_hears hs hpick he).mono (Run.grows (run_drain _) hvalid) fun hg hp =>
          ⟨hg.spent hp.1, hg.kind.trans hp.2⟩
      have htripped := htripped.of_entry he
      rw [apply_poll_of_tripped hs hpick he htripped] at hspent ⊢
      rw [apply_poll_of_tripped ht hpick' hf (hftripped.trans htripped), hkind]
      obtain ⟨hmatch, recent, hsrecent, htrecent⟩ := hmatch.map
        (f := fun u => (u.hear x (.error .cancelled)).drain)
        (g := fun u => (u.hear x (.error .cancelled)).drain)
        (k := fun u => (u.hear x (.error .cancelled)).drain)
        (fun _ _ => by rw [mute_drain, mute_hear]) fun _ _ => by rw [mute_drain, mute_hear]
      obtain ⟨g, hg, hgspent, hgkind⟩ := hspent
      refine ⟨hmatch, .inr ⟨g, hg, hgspent, recent, s.trace, o, p, ?_, ?_⟩⟩
      · rw [hgkind, List.append_assoc]
        exact hsrecent
      · rw [hgkind, List.append_assoc, hlog]
        exact htrecent

theorem apply (h : Twins x s t) (hv : s.Valid) (hsw : s.work = []) (htw : t.work = [])
    (hmn : m.mute = n.mute) (hothers : Unanimous x s t)
    (htripped : ∀ o, s.Hears x o → s.At x (·.request.tripped = true)) :
    Twins x (m.apply s) (n.apply t) := by
  have hgrows := Run.grows (run_apply m hsw) hv
  by_cases hpoll : ∃ i, m = .poll i ∧ ∃ o, s.Hears i o
  · obtain ⟨i, rfl, o, hs⟩ := hpoll
    obtain rfl : n = .poll i := Move.eq_poll_of_mute hmn.symm
    obtain ⟨p, ht⟩ := h.isMatch.hears hs
    by_cases hix : i = x
    · subst hix
      exact h.apply_tripped hv hsw htw hs ht (htripped o hs)
    · obtain rfl := hothers hix (hs.imp fun _ => And.right) (ht.imp fun _ => And.right)
      exact h.apply_hears hgrows hs ht
  · refine h.apply_quiet hgrows hmn (fun i hm o hs => hpoll ⟨i, hm, o, hs⟩) fun i hn p ht => ?_
    obtain ⟨o, hs⟩ := h.isMatch.symm.hears ht
    subst hn
    exact hpoll ⟨i, Move.eq_poll_of_mute hmn, o, hs⟩

end Twins

/-- What there is to see of two machines is the same, apart from a panic that each may have logged
of the request `x`. -/
structure Alike (x : Nat) (s t : Machine D) : Prop where
  faces : s.entries.map Entry.face = t.entries.map Entry.face
  /-- Wakers woken, continuations run, callbacks begun and gone on, and what client code saw. -/
  events : s.events = t.events
  snapshot : s.snapshot.1 = t.snapshot.1
  tally : s.tally = t.tally
  register : s.register = t.register
  gates : s.gates = t.gates
  permits : s.permits = t.permits
  ready : s.ready = t.ready
  live : s.live = t.live
  log : SameLog x s t

theorem Twins.alike (h : Twins x s t) : Alike x s t := by
  have hsnapshot : s.snapshot.1 = t.snapshot.1 := by
    have (u : Machine D) : u.snapshot.1 = ({ u with trace := [] }.mute []).snapshot.1 := by
      rw [snapshot_mute]
      rfl
    rw [this s, this t, h.isMatch]
  have hfaces : s.entries.map Entry.face = t.entries.map Entry.face := by
    simpa [Function.comp_def] using congrArg (List.map Entry.face) h.isMatch.entries
  exact
    { faces := hfaces
      events := (congrArg Machine.events h.isMatch :)
      snapshot := hsnapshot
      tally := (congrArg Machine.tally h.isMatch :)
      register := (congrArg Machine.register h.isMatch :)
      gates := (congrArg Machine.gates h.isMatch :)
      permits := (congrArg Machine.permits h.isMatch :)
      ready := h.isMatch.ready
      live := (congrArg Machine.live h.isMatch :)
      log := h.log }

/-- The machine after these moves, each with everything that it sets off. -/
def applyAll (ms : List (Move D)) (s : Machine D) : Machine D := ms.foldl (fun s m => m.apply s) s

theorem reaches_applyAll (ms : List (Move D)) (h : s.work = []) : Reaches s (s.applyAll ms) := by
  induction ms generalizing s with
  | nil => exact .refl h
  | cons m ms ih => exact (reaches_apply m h).trans (ih (work_apply m s))

theorem applyAll_append (ms ns : List (Move D)) (s : Machine D) :
    s.applyAll (ms ++ ns) = (s.applyAll ms).applyAll ns :=
  List.foldl_append

/-- A machine grows with the moves that come to it. -/
theorem grows_applyAll {ms ns : List (Move D)} (h : ms <+: ns) :
    ((start permits).applyAll ms).Grows ((start permits).applyAll ns) := by
  obtain ⟨rest, rfl⟩ := h
  obtain ⟨hrun, hrest⟩ := reaches_applyAll (s := start permits) ms rfl
  rw [applyAll_append]
  exact Run.grows (reaches_applyAll rest hrest).1 (Reachable.valid hrun)

/-- Two runs bring the same moves in the same order, apart from what callbacks return. The callback
of every request but `x` ends with the same result in both, and the cancellation of `x` has been
requested when its callback has returned. Then after every move there is the same to see in both,
and the logs differ in one report of a panic at most. -/
theorem results_discarded (ms ns : List (Move D)) (hmoves : ms.map Move.mute = ns.map Move.mute)
    (hothers : ∀ k i q r, i ≠ x → ((start permits).applyAll (ms.take k)).Ends i q →
      ((start permits).applyAll (ns.take k)).Ends i r → q = r)
    (hcancelled : ∀ k o,
      ((start permits).applyAll (ms.take k)).At x (·.callback = .returned o) →
      ((start permits).applyAll (ms.take k)).At x (·.request.tripped = true)) (k : Nat) :
    Alike x ((start permits).applyAll (ms.take k)) ((start permits).applyAll (ns.take k)) := by
  suffices h : Twins x ((start permits).applyAll (ms.take k))
        ((start permits).applyAll (ns.take k)) ∧
      Unanimous x ((start permits).applyAll (ms.take k)) ((start permits).applyAll (ns.take k)) from
    h.1.alike
  induction k with
  | zero => exact ⟨⟨rfl, .inl rfl⟩, fun _ hs => by simp [applyAll, At, start] at hs⟩
  | succ k ih =>
      have hget : ms[k]?.map Move.mute = ns[k]?.map Move.mute := by
        simpa using congrArg (·[k]?) hmoves
      rw [List.take_add_one, List.take_add_one]
      cases hm : ms[k]? with
      | none =>
          rw [hm, Option.map_none, eq_comm, Option.map_eq_none_iff] at hget
          simpa [hget] using ih
      | some m =>
          rw [hm, Option.map_some, eq_comm, Option.map_eq_some_iff] at hget
          obtain ⟨n, hn, hmn⟩ := hget
          obtain ⟨hsrun, hsw⟩ := reaches_applyAll (s := start permits) (ms.take k) rfl
          obtain ⟨htrun, htw⟩ := reaches_applyAll (s := start permits) (ns.take k) rfl
          have hs := Reachable.valid hsrun
          have htwins := ih.1.apply hs hsw htw hmn.symm ih.2 fun o ho =>
            hcancelled k o (ho.imp fun _ => And.right)
          rw [hn, Option.toList_some, Option.toList_some, applyAll_append, applyAll_append]
          exact ⟨htwins, Unanimous.apply ih.2 ih.1.isMatch htwins.isMatch hs
            (Reachable.valid htrun) hsw htw (hothers k)⟩

/-- Moves that are played to their ends. -/
theorem applyAll_eq_play (n : Nat) (ms : List (Move D)) (h : (s.play n ms).work = []) :
    s.applyAll ms = s.play n ms := by
  induction ms generalizing s with
  | nil => rfl
  | cons m ms ih =>
      unfold play at h ⊢
      split at h
      case isFalse hw => simp [h] at hw
      case isTrue hw =>
        have hrest : ((m.begin s).steps n).work = [] := by
          cases ms with
          | nil => exact h
          | cons m' ms =>
              unfold play at h
              split at h
              case isTrue hw => exact List.isEmpty_iff.mp hw
              case isFalse hw => exact h
        rw [if_pos hw, ← ih h, ← drain_eq_steps n _ hrest]
        rfl

/-- A read is cancelled after it was handed to the runtime. Its callback is called all the same, and
returns this result. -/
def disowned (result : Result Unit) : List (Move Unit) :=
  [.submit .read { result }, .poll 0, .awaitRequest 0 7, .cancel 0, .advance 0, .poll 0]

theorem results_discarded_disowned :
    let s := (start none).applyAll (disowned (.value ()))
    let t := (start none).applyAll (disowned (.throw .fixed))
    Alike 0 s t ∧ (t.At 0 fun e => e.request.status = .cancelled ∧ e.isVacated = true) ∧
      .panicked .read fixedMessage ∉ s.trace ∧ .panicked .read fixedMessage ∈ t.trace := by
  have hvalue : (start none).applyAll (disowned (.value ())) =
      (start none).play 12 (disowned (.value ())) := applyAll_eq_play 12 _ rfl
  have hpanic : (start none).applyAll (disowned (.throw .fixed)) =
      (start none).play 12 (disowned (.throw .fixed)) := applyAll_eq_play 12 _ rfl
  have hearly : (start none).applyAll ((disowned (.value ())).take 4) =
      (start none).play 12 ((disowned (.value ())).take 4) := applyAll_eq_play 12 _ rfl
  -- Nobody but the read is there.
  have hothers (k i : Nat) (q r : Result Unit) (hi : i ≠ 0)
      (hq : ((start none).applyAll ((disowned (.value ())).take k)).Ends i q) : q = r := by
    obtain ⟨e, he, _⟩ := hq
    have hlast : ((start none).applyAll ((disowned (.value ())).take k)).Grows
        ((start none).applyAll (disowned (.value ()))) := grows_applyAll (List.take_prefix k _)
    obtain ⟨f, hf, _⟩ := hlast.entry he
    rw [hvalue] at hf
    have hlt : i < 1 := (List.getElem?_eq_some_iff.mp hf).1
    omega
  -- The callback begins after the cancellation, so that it returns after it.
  have htripped : ((start none).play 12 ((disowned (.value ())).take 4)).At 0
      (·.request.tripped = true) := ⟨_, rfl, rfl⟩
  have hcancelled (k : Nat) (o : Outcome (Value Unit))
      (ho : ((start none).applyAll ((disowned (.value ())).take k)).At 0
        (·.callback = .returned o)) :
      ((start none).applyAll ((disowned (.value ())).take k)).At 0 (·.request.tripped = true) := by
    obtain hk | hk := Nat.le_total 4 k
    · have hlater : ((start none).applyAll ((disowned (.value ())).take 4)).Grows
          ((start none).applyAll ((disowned (.value ())).take k)) :=
        grows_applyAll (List.take_prefix_take_left hk)
      rw [hearly] at hlater
      exact htripped.mono hlater (·.tripped)
    · have hlater : ((start none).applyAll ((disowned (.value ())).take k)).Grows
          ((start none).applyAll ((disowned (.value ())).take 4)) :=
        grows_applyAll (List.take_prefix_take_left hk)
      rw [hearly] at hlater
      have hbegun := hasBegun_eq_true_iff.mpr (ho.mono hlater fun hg hc => hg.begun (hc ▸ rfl))
      cases hbegun
  refine ⟨results_discarded (disowned (.value ())) (disowned (.throw .fixed)) rfl
    (fun k i q r hi hq _ => hothers k i q r hi hq) hcancelled 6, ?_⟩
  rw [hvalue, hpanic]
  exact ⟨⟨_, rfl, rfl, rfl⟩, by decide, by decide⟩

end Machine

end RequestScheduler
