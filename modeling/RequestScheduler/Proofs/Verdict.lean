import RequestScheduler.Proofs.Flag

/-!
# How a request settles

Whatever is about to settle a request is there for a reason (`Founded`): the flag of the request was
set, its task went with the runtime, or its callback has returned. So a request settles as cancelled
exactly when its flag was set by then or its task was lost, and otherwise as what its callback has
returned (`outcome_accounted`).
-/

namespace RequestScheduler

namespace Machine

variable {D : Type} {s t u : Machine D} {i x : Nat} {e f : Entry D} {w : Work D} {a : Act D}
  {o : Outcome (Value D)} {bound : Option Nat} {permits : Option Permits} {kind : Kind}
  {past later before : List (Machine D × Act D)}

/-- The task of the request went with the runtime. -/
def Lost (s : Machine D) (i : Nat) : Prop := s.live = false ∧ s.At i (·.task = .ended)

/-- The request has settled, or its cancellation was requested. -/
def Resolved (s : Machine D) (i : Nat) : Prop :=
  s.At i fun e => e.request.isSettled = true ∨ e.request.tripped = true

/-- Whatever is about to settle a request, or to end its task, is there for a reason. -/
structure Founded (past : List (Machine D × Act D)) (s : Machine D) : Prop where
  ending : ∀ {i : Nat}, .endTask i ∈ s.work → s.Resolved i ∨ s.live = false ∨
    ∃ o, s.pressing.head? = some (.settle i o)
  cancelled : ∀ {i : Nat}, .settle i (.error .cancelled) ∈ s.work → s.Resolved i ∨ s.Lost i
  refused : ∀ {i : Nat}, .settle i (.error .shutdownRejected) ∈ s.work →
    s.At i (·.stage = .refused)
  answer : ∀ {i : Nat} {o : Outcome (Value D)}, .settle i o ∈ s.work →
    (Work.settle i o).isAnswer = true → s.At i (·.task = .working) ∧ Returned past i o

theorem Resolved.grow (h : s.Resolved i) (hg : s.Grows t) : t.Resolved i :=
  h.mono hg fun he => Or.imp he.isSettled he.tripped

theorem dead_of_grows (hl : s.live = false) (hg : s.Grows t) : t.live = false :=
  Bool.eq_false_iff.mpr fun ht => Bool.eq_false_iff.mp hl (hg.live ht)

theorem Lost.grow (h : s.Lost i) (hg : s.Grows t) : t.Lost i :=
  ⟨dead_of_grows h.1 hg, h.2.mono hg (·.ended)⟩

/-- A request has settled once an outcome was published for it. -/
theorem resolved_settle (hi : s.At i fun _ => True) :
    (Act.apply (.item (.settle i o)) s).Resolved i := by
  obtain ⟨e, he, _⟩ := hi
  cases hset : e.request.isSettled with
  | false => exact ⟨_, entry_settle he hset, .inl (Request.isSettled_publish _ _)⟩
  | true => exact ⟨e, by simp [Act.apply, exec, settle, he, hset], .inl hset⟩

/-- Work that is most pressing is what is done, unless an event is logged. -/
theorem Act.Enabled.head? (ha : a.Enabled s) (hw : s.pressing.head? = some w) :
    (∃ n, a = .item (.note n) ∧ (a.apply s).pressing = s.pressing) ∨ a = .item w := by
  refine ha.pressing.imp_right fun hp => ?_
  rw [hp] at hw
  cases a with
  | item v => rw [Option.some.inj (Eq.trans (Eq.symm ha) hw)]
  | move m => simp [show s.work = [] from ha] at hw

theorem Founded.apply (h : Founded past s) (ha : a.Enabled s) (hs : s.Sound) (hp : s.Prompt)
    (hf : Faithful past s) (hg : s.Grows (a.apply s)) :
    Founded ((s, a) :: past) (a.apply s) := by
  have heard {i : Nat} {o : Outcome (Value D)} (hi : s.At i (·.callback = .returned o)) :
      Returned past i o := by
    obtain ⟨e, he, ho⟩ := hi
    exact hf.answer he ho
  constructor
  · intro i hw
    obtain hold | hnew := ha.issued hs hw
    · have hmem : .endTask i ∈ s.work := List.mem_of_mem_tail hold
      obtain hr | hl | ⟨o, ho⟩ := h.ending hmem
      · exact .inl (hr.grow hg)
      · exact .inr (.inl (dead_of_grows hl hg))
      · obtain ⟨n, _, hpressing⟩ | rfl := ha.head? ho
        · exact .inr (.inr ⟨o, hpressing ▸ ho⟩)
        · have hthere : s.At i fun _ => True := (hs.work hmem).imp fun _ _ => trivial
          exact .inl (resolved_settle hthere)
    · cases hnew with
      | plain hn => cases hn
      | stop ht => exact .inl (ht.imp fun _ => .inr)
      | hear hp => exact .inr (.inr ⟨_, by rw [hp]; rfl⟩)
      | lose hl => exact .inr (.inl hl)
  · intro i hw
    obtain hold | hnew := ha.issued hs hw
    · exact (h.cancelled (List.mem_of_mem_tail hold)).imp (·.grow hg) (·.grow hg)
    · cases hnew with
      | plain hn => cases hn
      | cancel ht => exact .inl (ht.imp fun _ => .inr)
      | abandon heq ht =>
          subst heq
          obtain hr | hl | ⟨o, ho⟩ := h.ending ha.mem
          · exact .inl (hr.grow hg)
          · exact .inr ⟨dead_of_grows hl hg, ht⟩
          · obtain ⟨n, hn, _⟩ | hn := ha.head? ho <;> cases hn
      | publish hret => cases (heard hret).isAnswer
  · intro i hw
    obtain hold | hnew := ha.issued hs hw
    · exact (h.refused (List.mem_of_mem_tail hold)).mono hg fun he => he.refused.mpr
    · cases hnew with
      | plain hn => cases hn
      | refuse ht => exact ht
      | publish hret => cases (heard hret).isAnswer
  · intro i o hw hanswer
    obtain hold | hnew := ha.issued hs hw
    · obtain ⟨n, rfl, _⟩ := hp.note ha hold hanswer
      obtain ⟨hworking, hret⟩ := h.answer (List.mem_of_mem_tail hold) hanswer
      exact ⟨hworking, hret.mono (List.subset_cons_self ..)⟩
    · obtain ⟨j, p, heq, hret, hworking, _⟩ := hnew.of_isAnswer hanswer
      obtain ⟨rfl, rfl⟩ := Work.settle.inj heq
      exact ⟨hworking, (heard hret).mono (List.subset_cons_self ..)⟩

theorem History.founded (h : History permits past s) : Founded past s := by
  induction h with
  | start => constructor <;> simp [Machine.start]
  | next h ha ih =>
      have hr := h.reachable
      exact ih.apply ha hr.valid.sound hr.prompt h.faithful (Run.grows (.single ha.step) hr.valid)

/-- A request that settles now settles as cancelled exactly when its flag is set or its task is
lost, and otherwise as what its callback has returned. -/
theorem Founded.resolve (h : Founded before u) (hw : .settle x o ∈ u.work)
    (hx : u.entries[x]? = some e) (hn : e.request.isSettled = false) (hr : e.stage ≠ .refused) :
    (e.request.resolve o = .error .cancelled ↔ e.request.tripped = true ∨ u.Lost x) ∧
    (e.request.resolve o ≠ .error .cancelled → Returned before x (e.request.resolve o)) := by
  cases ht : e.request.tripped with
  | true => simp [Request.resolve, ht]
  | false =>
  have hresolve : e.request.resolve o = o := by simp [Request.resolve, ht]
  rw [hresolve]
  -- What does not come from the callback is a cancellation, since the request was accepted.
  have silent (ho : o = .error .cancelled ∨ o = .error .shutdownRejected) :
      o = .error .cancelled ∧ u.Lost x := by
    obtain rfl | rfl := ho
    · refine ⟨rfl, (h.cancelled hw).resolve_left fun hres => ?_⟩
      simpa [hn, ht] using hres.of_entry hx
    · exact absurd ((h.refused hw).of_entry hx) hr
  have voiced (ho : (Work.settle x o).isAnswer = true) :
      o ≠ .error .cancelled ∧ ¬u.Lost x ∧ Returned before x o := by
    obtain ⟨hworking, hret⟩ := h.answer hw ho
    refine ⟨?_, ?_, hret⟩
    · rintro rfl
      cases ho
    · rintro ⟨_, hended⟩
      cases (hworking.of_entry hx).symm.trans (hended.of_entry hx)
  cases ho : (Work.settle x o).isAnswer with
  | true =>
      obtain ⟨hne, hlost, hret⟩ := voiced ho
      simp [hne, hlost, hret]
  | false =>
      have hsilent : o = .error .cancelled ∨ o = .error .shutdownRejected := by
        rcases o with (_ | _ | _ | _) | _ <;> simp_all [Work.isAnswer]
      obtain ⟨rfl, hlost⟩ := silent hsilent
      simp [hlost]

/-- Every request that was accepted and has settled did so by the publication of an outcome. -/
theorem History.exists_settled (h : History (Permits.ofBound bound) past s)
    (hx : s.Accepted kind x) (ho : s.At x (·.request.cell.value? = some o)) :
    ∃ later u p before, past = later ++ (u, .item (.settle x p)) :: before ∧
      u.At x (·.request.isSettled = false) ∧
      (o = .error .cancelled ↔ u.At x (·.request.tripped = true) ∨ u.Lost x) ∧
      (o ≠ .error .cancelled → Returned before x o) := by
  obtain ⟨later, u, a, before, hpast, hu, ha, hn, ⟨f, hf, hfo⟩, hrun⟩ :=
    h.exists_change (p := fun u => u.At x (·.request.cell.value? = some o))
      (by simp [At, Machine.start]) ho
  have hvalid : u.Valid := hu.reachable.valid
  have hgrows : u.Grows s := Run.grows (.head ha.step hrun) hvalid
  cases he : u.entries[x]? with
  | none =>
      obtain ⟨kind, body, _, _, rfl⟩ := (Act.edits hvalid.sound.isCoherent a).exists_submits he hf
      unfold newcomer at hfo
      split at hfo <;> cases hfo
  | some e =>
  have hpending : e.request.cell.value? = none := by
    cases hq : e.request.cell.value? with
    | none => rfl
    | some q =>
        obtain ⟨g, hg, heg⟩ := (Run.grows (.single ha.step) hvalid).entry he
        obtain rfl := Option.some.inj (hf.symm.trans hg)
        obtain rfl := Option.some.inj (hfo.symm.trans (heg.value q hq))
        exact absurd ⟨e, he, hq⟩ hn
  obtain ⟨g, hg, _, hkept | ⟨p, rfl⟩⟩ :=
    ha.heeds hu.reachable.serving hu.reachable.sealed hvalid.sound he
  · obtain rfl := Option.some.inj (hf.symm.trans hg)
    cases hfo.symm.trans (hkept.trans hpending)
  have hset : e.request.isSettled = false := by
    rw [Request.isSettled, ← Cell.isSome_value?, hpending]
    rfl
  have hadmitted : e.stage ≠ .refused :=
    ((accepted_iff hgrows (List.getElem?_eq_some_iff.mp he).1).mp hx).of_entry he |>.2
  have hresolve : o = e.request.resolve p := by
    obtain rfl := Option.some.inj (hf.symm.trans (entry_settle he hset))
    have hstored := (Request.value?_publish p e.request).symm.trans hfo
    rw [hpending] at hstored
    exact (Option.some.inj hstored).symm
  obtain ⟨hiff, hret⟩ := hu.founded.resolve ha.mem he hset hadmitted
  refine ⟨later, u, p, before, hpast, ⟨e, he, hset⟩, ?_, ?_⟩
  · rw [hresolve, hiff]
    exact or_congr_left ⟨fun ht => ⟨e, he, ht⟩, fun ht => ht.of_entry he⟩
  · rw [hresolve]
    exact hret

/-- What becomes of an accepted request is accounted for. If it is terminal, it has settled at one
moment of the past: as cancelled exactly when its flag was set by then or its task was lost with the
runtime, and otherwise as the value, the error or the panic that its own callback had returned. If
its flag is set, it was set at one moment of the past by its consumer, by the holder of the
indicator that its callback was handed, by the manager for a write that was admitted while the
request was outstanding, or by a bulk cancellation or a shutdown that found it outstanding. -/
theorem outcome_accounted (h : History (Permits.ofBound bound) past s) (hx : s.Accepted kind x) :
    (s.At x (·.request.status.isTerminal = true) →
      ∃ o, s.At x (·.request.cell.value? = some o) ∧
        ∃ later u p before, past = later ++ (u, .item (.settle x p)) :: before ∧
          u.At x (·.request.isSettled = false) ∧
          (o = .error .cancelled ↔ u.At x (·.request.tripped = true) ∨ u.Lost x) ∧
          (o ≠ .error .cancelled → Returned before x o)) ∧
    (s.At x (·.request.tripped = true) →
      ∃ later u a before, past = later ++ (u, a) :: before ∧
        u.At x (·.request.tripped = false) ∧ TrippedBy before u x a) := by
  refine ⟨?_, h.exists_tripped⟩
  rintro ⟨e, he, hterminal⟩
  have hset : e.request.cell.value?.isSome = true :=
    (Cell.isSome_value? _).trans ((Request.isTerminal_status _).mp hterminal)
  obtain ⟨o, ho⟩ := Option.isSome_iff_exists.mp hset
  exact ⟨o, ⟨e, he, ho⟩, h.exists_settled hx ⟨e, he, ho⟩⟩

/-- A read that returned a value, one that returned an error and one that panicked. A fourth was
superseded while it performed, and returned a value after that. -/
def answered : Machine Unit :=
  (start (Permits.ofBound (some 1))).play 8 [.submit .read { result := .value () },
    .submit .read { result := .error "full" }, .submit .read { result := .throw (.text "lost") },
    .submit .read { mode := .hold, result := .value () },
    .poll 0, .advance 0, .poll 0, .poll 1, .advance 1, .poll 1, .poll 2, .advance 2, .poll 2,
    .poll 3, .advance 3, .submit .write {}, .release 3, .advance 3, .poll 3]

theorem outcome_accounted_answered : ∃ past, History (Permits.ofBound (some 1)) past answered ∧
    (∀ x < 4, answered.Accepted .read x ∧ answered.At x (·.request.status.isTerminal = true)) ∧
    answered.At 3 (·.request.tripped = true) ∧
    (∃ later before, past = later ++ before ∧ Returned before 0 (.ok (.data ()))) ∧
    (∃ later before, past = later ++ before ∧ Returned before 1 (.error (.failed "full"))) ∧
    (∃ later before, past = later ++ before ∧ Returned before 2 (.error (.panicked "lost"))) ∧
    (∃ later u p before, past = later ++ (u, .item (.settle 3 p)) :: before ∧
      (u.At 3 (·.request.tripped = true) ∨ u.Lost 3)) ∧
    ∃ later u a before, past = later ++ (u, a) :: before ∧
      u.At 3 (·.request.tripped = false) ∧ TrippedBy before u 3 a := by
  have hreach : Reachable (Permits.ofBound (some 1)) answered := run_play 8 _ _
  obtain ⟨past, h⟩ := History.exists_of_reachable hreach
  have hreads : ∀ x < 4,
      answered.Accepted .read x ∧ answered.At x (·.request.status.isTerminal = true) := by
    rintro (_ | _ | _ | _ | x) hx
    · exact ⟨⟨_, rfl, rfl, by decide⟩, _, rfl, rfl⟩
    · exact ⟨⟨_, rfl, rfl, by decide⟩, _, rfl, rfl⟩
    · exact ⟨⟨_, rfl, rfl, by decide⟩, _, rfl, rfl⟩
    · exact ⟨⟨_, rfl, rfl, by decide⟩, _, rfl, rfl⟩
    · omega
  have htripped : answered.At 3 (·.request.tripped = true) := ⟨_, rfl, rfl⟩
  have settled {x : Nat} {o : Outcome (Value Unit)} (hx : x < 4)
      (ho : answered.At x (·.request.cell.value? = some o)) :
      ∃ later u p before, past = later ++ (u, .item (.settle x p)) :: before ∧
        (o = .error .cancelled → u.At x (·.request.tripped = true) ∨ u.Lost x) ∧
        (o ≠ .error .cancelled → Returned before x o) := by
    obtain ⟨haccepted, hterminal⟩ := hreads x hx
    obtain ⟨q, hq, later, u, p, before, hpast, _, hiff, hret⟩ :=
      (outcome_accounted h haccepted).1 hterminal
    obtain ⟨e, he, hqe⟩ := hq
    obtain rfl := Option.some.inj ((ho.of_entry he).symm.trans hqe)
    exact ⟨later, u, p, before, hpast, hiff.mp, hret⟩
  have returned {x : Nat} {o : Outcome (Value Unit)} (hx : x < 4)
      (ho : answered.At x (·.request.cell.value? = some o)) (hne : o ≠ .error .cancelled) :
      ∃ later before, past = later ++ before ∧ Returned before x o := by
    obtain ⟨later, u, p, before, hpast, _, hret⟩ := settled hx ho
    exact ⟨later ++ [(u, .item (.settle x p))], before, by simp [hpast], hret hne⟩
  obtain ⟨later, u, p, before, hpast, hcancelled, _⟩ :=
    settled (x := 3) (o := .error .cancelled) (by decide) ⟨_, rfl, rfl⟩
  obtain ⟨_, hby⟩ := outcome_accounted h (hreads 3 (by decide)).1
  exact ⟨past, h, hreads, htripped, returned (by decide) ⟨_, rfl, rfl⟩ (by simp),
    returned (by decide) ⟨_, rfl, rfl⟩ (by simp), returned (by decide) ⟨_, rfl, rfl⟩ (by simp),
    ⟨later, u, p, before, hpast, hcancelled rfl⟩, hby htripped⟩

end Machine

end RequestScheduler
