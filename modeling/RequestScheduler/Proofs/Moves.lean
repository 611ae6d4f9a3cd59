import RequestScheduler.Proofs.Edit
import RequestScheduler.Proofs.Steps

/-!
# Moves follow the rules

What comes to a machine at rest follows the rules as work does, so every step of a run follows them
(`Step.rules`), and whatever the rules preserve holds in every state of every run
(`Run.induction`).
-/

namespace RequestScheduler

namespace Machine

variable {D : Type} {s t : Machine D} {i : Nat} {e : Entry D}

/-- A task that is waiting for a permit gives up. -/
theorem rules_closeOut (hc : s.Coherent) (he : s.entries[i]? = some e)
    (ht : e.task = .fresh ∨ e.task = .queueing ∨ e.task = .handed) : Rules s (s.closeOut i) := by
  obtain ⟨body, hb⟩ := (hc he).waiting ht
  have hk : e.task ≠ .unspawned := by obtain h | h | h := ht <;> simp [h]
  have hput : s.Touches (s.put i { e with task := .ended }) :=
    .put he (.stop hk) rfl rfl rfl rfl rfl
  have last {v : Machine D} (hv : s.Touches v) (hw : v.work = s.work) :
      Rules s (v.cancelThen i [.endTask i]) := by
    obtain ⟨f, hf, hef⟩ := hv.entry he
    refine .trans (.single (hv.rule hw)) (rules_cancelThen (List.nil_append v.work).symm hf
      (.stop (hef.grows.spawned hk) ?_))
    rw [hef.hasBegun, hb]
    rfl
  unfold closeOut
  simp only [he]
  split
  · exact last (hput.trans (touches_putPermit _).1) (touches_putPermit _).2
  · exact last hput rfl

/-- A task that hears its callback is over. -/
theorem rules_hear {o : Outcome (Value D)} (he : s.entries[i]? = some e) (ht : e.task = .working)
    (ho : e.callback = .returned o) : Rules s ((s.put i { e with callback := .spent }).push
      (panicNote e.kind o ++ [.settle i o, .endTask i])) := by
  have hput : s.Touches (s.put i { e with callback := .spent }) :=
    .put he (.hear o ho) rfl rfl rfl rfl rfl
  have hset := getElem?_set_of_some (b := { e with callback := .spent }) he
  have hn : ∀ w ∈ panicNote e.kind o, (w : Work D).isIdle := by
    simp [panicNote, Work.isIdle]
  refine .tail (.tail (.single (hput.rule rfl)) (.hear (o := o) hset rfl (by simp [ht]))) ?_
  exact .idle (List.nil_append _).symm (List.forall_mem_nil _) hn (.same rfl rfl rfl rfl rfl)
    (by simp [push, put])

/-- The runtime polls a task. -/
theorem rules_poll (hc : s.Coherent) : Rules s (s.poll i) := by
  cases he : s.entries[i]? with
  | none =>
      simp only [poll, he]
      exact .refl
  | some e =>
  have quiet {t : Machine D} (h : s.Touches t) (hw : t.work = s.work) : Rules s t :=
    .single (h.rule hw)
  have h := polled (hc he) he
  generalize s.poll i = t at h ⊢
  cases h with
  | idle => exact .refl
  | closed hs => exact rules_closeOut hc he hs.waiting
  | enqueue ht => exact quiet (.put he (.enqueue ht) rfl rfl rfl rfl rfl) rfl
  | take ht _ _ _ _ hb => exact quiet (.put he (.offer (.inl ht) hb) rfl rfl rfl rfl rfl) rfl
  | start ht hb =>
      exact quiet (.put he (.offer (ht.imp And.left And.left) hb) rfl rfl rfl rfl rfl) rfl
  | hear ht ho => exact rules_hear he ht ho

/-- A callback begins, or goes on after it was parked. -/
theorem rules_advance (h : s.work = []) : Rules s (s.advance i) := by
  unfold advance
  split
  · exact .refl
  rename_i e he
  have hset := getElem?_set_of_some (b := { e with callback := .running }) he
  -- From here on the callback performs what is left of its code.
  have go {v t : Machine D} (es : List (Effect D)) (w : Work D) (hv : Rule s v)
      (hvw : v.work = []) (hve : v.entries = s.entries.set i { e with callback := .running })
      (hw : w.ends? = some i) (ht : Touches v t) (htw : t.work = es.map .perform ++ [w]) :
      Rules s t := by
    have hi : ∀ w ∈ es.map Work.perform, w.isIdle := by simp [Work.isIdle]
    exact .tail (.tail (.single hv) (.lead hvw (hve ▸ hset) rfl hi hw))
      (Touches.rule ⟨ht.length, ht.entry, ht.gates, ht.admission, ht.live, ht.starts⟩ htw)
  split
  · rename_i body hb
    have begun := Rule.begin (b := e.request.tripped) h he hb
    cases hm : body.mode with
    | straight =>
        exact go (body.pre ++ body.post) (.finish i body.result) begun h rfl rfl
          (.same rfl rfl rfl rfl rfl) (by simp [push, put, emit, pause, h])
    | hold | cooperative =>
        exact go body.pre (.park i body) begun h rfl rfl (.same rfl rfl rfl rfl rfl)
          (by simp [push, put, emit, pause, h])
  · rename_i body hb
    have hput : s.Touches (s.put i { e with callback := .running }) :=
      .put he (.resume hb) rfl rfl rfl rfl rfl
    exact go body.post (.finish i body.result) (hput.rule rfl) h rfl rfl
      (.same rfl rfl rfl rfl rfl) (by simp [push, put, emit, pause, h])
  · exact .refl

theorem rules_closeDown (s : Machine D) : Rules s s.closeDown := by
  refine .tail (.tail (.single .prune) .close) ?_
  unfold closeDown closePermits
  dsimp only
  split
  · exact Touches.rule (.same rfl rfl rfl rfl rfl) rfl
  · exact Touches.rule (.same rfl rfl rfl rfl rfl) rfl

/-- A move comes to a machine at rest. -/
theorem rules_begin (hs : s.Sound) (h : s.work = []) (m : Move D) : Rules s (m.begin s) := by
  have hc : s.Coherent := hs.isCoherent
  have hn : ∀ w ∈ ([] : List (Work D)), w.isIdle = true := List.forall_mem_nil _
  have hnil : s.work = [] ++ s.work := rfl
  have quiet {t : Machine D} (ht : s.Touches t) (hw : t.work = s.work) : Rules s t :=
    .single (ht.rule hw)
  have modified {i : Nat} {f : Entry D → Entry D} (hf : ∀ e : Entry D, e.Touch (f e)) :
      Rules s (s.modify i f) := by
    unfold modify
    split
    · exact .refl
    · rename_i e he
      exact quiet (.put he (hf e) rfl rfl rfl rfl rfl) rfl
  cases m with
  | submit kind body => exact rules_submit hnil hn hn
  | cancel i =>
      simp only [Move.begin]
      split
      · rename_i hi
        obtain ⟨e, he⟩ := Option.isSome_iff_exists.mp hi
        exact rules_cancelThen hnil he (.client hn hn)
      · exact .refl
  | cancelAll => exact rules_cancelAll hnil hn hn
  | snapshot => exact rules_snapshot hnil hn
  | onSettled i tag es => exact rules_onSettled hnil hn hn
  | effects es =>
      exact .single (.idle hnil hn (by simp [Work.isIdle]) (.same rfl rfl rfl rfl rfl) rfl)
  | shutdown => exact rules_closeDown s
  | report => exact quiet (.same rfl rfl rfl rfl rfl) rfl
  | trip i =>
      simp only [Move.begin]
      split
      · rename_i hb
        obtain ⟨e, he, hb⟩ := hasBegun_eq_true_iff.mp hb
        simp only [trip, he]
        exact .single (.flag he hb)
      · exact .refl
  | awaitRequest i waker => exact modified fun _ => .await waker
  | takeOutcome => exact modified fun _ => .take
  | dropFuture => exact modified fun _ => .hold .gone
  | release i =>
      simp only [Move.begin, releaseJob]
      split
      · exact .refl
      rename_i e he
      have hput : s.Touches (s.put i { e with released := true }) :=
        .put he .release rfl rfl rfl rfl rfl
      split
      · split
        · exact quiet hput rfl
        · exact quiet (hput.trans (.same rfl rfl rfl rfl rfl)) rfl
      · exact quiet hput rfl
  | poll i =>
      simp only [Move.begin]
      split
      · exact .refl
      · rename_i rest _
        have hq : Rules s { s with ready := rest } := quiet (.same rfl rfl rfl rfl rfl) rfl
        exact hq.trans (rules_poll hc)
  | advance i => exact rules_advance h
  | pause => exact quiet (.same rfl rfl rfl rfl rfl) rfl
  | lose tasks =>
      simp only [Move.begin]
      split
      · rename_i hp
        suffices ht : ∀ i ∈ tasks, ∃ e, s.entries[i]? = some e ∧ e.task ≠ .unspawned from
          .tail (.single (.lose h ht))
            (Touches.rule (.same rfl rfl rfl rfl rfl) (by simp [push, h]))
        intro i hi
        obtain ⟨e, he, ha⟩ := mem_aliveTasks.mp (hp.2.mem_iff.mp hi)
        exact ⟨e, he, fun hk => by simp [Entry.isAlive, hk] at ha⟩
      · exact .refl

/-- A step of a sound machine follows the rules. -/
theorem Step.rules (h : Step s t) (hs : s.Sound) : Rules s t := by
  cases h with
  | work h =>
      obtain ⟨w, rest, hw, rfl⟩ := exists_of_step? h
      exact rules_exec hs hw
  | move m h => exact rules_begin hs h m

/-- What the rules keep of sound machines holds of every state of a run. -/
theorem Run.induction {p : Machine D → Prop} (h : Run s t) (hs : s.Sound) (hp : p s)
    (hr : ∀ {u v : Machine D}, u.Sound → p u → Rule u v → p v) : t.Sound ∧ p t := by
  have rules {u v : Machine D} (h : Rules u v) (hu : u.Sound ∧ p u) : v.Sound ∧ p v := by
    induction h with
    | refl => exact hu
    | tail _ hv ih => exact ⟨hv.sound ih.1, hr ih.1 ih.2 hv⟩
  induction h with
  | refl => exact ⟨hs, hp⟩
  | tail _ h ih => exact rules (h.rules ih.1) ih

end Machine

end RequestScheduler
