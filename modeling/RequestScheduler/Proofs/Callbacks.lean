import RequestScheduler.Proofs.Issue

/-!
# The way of a callback

A callback that was submitted is held by its slot, offered to the pool of threads, perhaps parked,
and returned from. No act mistakes one callback for another (`Faithful`). So what a task hears is
what the callback that was submitted with its request has returned (`Returned`).
-/

namespace RequestScheduler

variable {D : Type}

/-- The code that a callback is still to run, in part at least. -/
def Callback.body? : Callback D → Option (Body D)
  | .held (.callback body) | .offered body | .parked body => some body
  | _ => none

theorem Callback.body?_of_close {c : Callback D} {b : Body D} (h : c.close.body? = some b) :
    c.body? = some b := by
  cases c <;> simp_all [close, body?]

theorem Callback.returned_of_close {c : Callback D} {o : Outcome (Value D)}
    (h : c.close = .returned o) : c = .returned o := by
  cases c <;> simp_all [close]

theorem Callback.running_of_close {c : Callback D} (h : c.close = .running) : c = .running := by
  cases c <;> simp_all [close]

section

variable {a : Machine.Act D} {n : Int64} {p : Option Permits} {i : Nat} {e f : Entry D}

/-- A callback that is still to run was so before, or has just been parked. -/
theorem Entry.Edit.body {b : Body D} (h : e.Edit a n p i f) (hb : f.callback.body? = some b) :
    e.callback.body? = some b ∨ a = .item (.park i b) := by
  cases h with
  | endTask => exact .inl (Callback.body?_of_close hb)
  | park ha =>
      obtain rfl := Option.some.inj hb
      exact .inr ha
  | start _ _ hc =>
      rw [hc]
      exact .inl hb
  | skip | answer | spend | hear | resume => cases hb
  | _ => exact .inl hb

/-- A callback has returned only when it has just done so, or had before. -/
theorem Entry.Edit.answer_of_returned {o : Outcome (Value D)} (h : e.Edit a n p i f)
    (ho : f.callback = .returned o) : e.callback = .returned o ∨
      ∃ r, a = .item (.finish i r) ∧ o = r.outcome n e.request.tripped := by
  cases h with
  | endTask => exact .inl (Callback.returned_of_close ho)
  | answer ha => exact .inr ⟨_, ha, (Callback.returned.inj ho).symm⟩
  | skip | park | spend | start | hear | resume => cases ho
  | _ => exact .inl ho

/-- A callback performs only when it has just been called or gone on, or did so before. -/
theorem Entry.Edit.running (h : e.Edit a n p i f) (hf : f.callback = .running) :
    e.callback = .running ∨ a = .move (.advance i) := by
  cases h with
  | endTask => exact .inl (Callback.running_of_close hf)
  | resume ha => exact .inr ha
  | skip | park | answer | spend | start | hear => cases hf
  | _ => exact .inl hf

end

namespace Machine

variable {s t u : Machine D} {a : Act D} {i : Nat} {e f : Entry D} {w : Work D}

/-- The callback was submitted as that of request `i`. -/
def Submitted (past : List (Machine D × Act D)) (i : Nat) (body : Body D) : Prop :=
  ∃ u a kind, (u, a) ∈ past ∧ a.submits? = some (kind, body) ∧ i = u.entries.length

/-- The callback of request `i` has returned, and its result came to this outcome then. -/
def Returned (past : List (Machine D × Act D)) (i : Nat) (o : Outcome (Value D)) : Prop :=
  ∃ u body, Submitted past i body ∧ (u, .item (.finish i body.result)) ∈ past ∧
    u.At i fun e => body.result.ComesTo u.register e.request.tripped o

variable {past later : List (Machine D × Act D)} {permits : Option Permits} {body : Body D}
  {o : Outcome (Value D)}

theorem Submitted.mono (h : Submitted past i body) (hp : past ⊆ later) :
    Submitted later i body := by
  obtain ⟨u, a, kind, hmem, hsub⟩ := h
  exact ⟨u, a, kind, hp hmem, hsub⟩

theorem Returned.mono (h : Returned past i o) (hp : past ⊆ later) : Returned later i o := by
  obtain ⟨u, body, hsub, hmem, ho⟩ := h
  exact ⟨u, body, hsub.mono hp, hp hmem, ho⟩

/-- What a callback returns is an answer. -/
theorem Returned.isAnswer (h : Returned past i o) : (Work.settle i o).isAnswer = true := by
  obtain ⟨u, body, _, _, e, _, ho⟩ := h
  generalize body.result = r at ho
  cases ho <;> rfl

/-- Every callback is the one that was submitted, and what it returned is what is heard of it. -/
structure Faithful (past : List (Machine D × Act D)) (s : Machine D) : Prop where
  body : ∀ {i : Nat} {e : Entry D} {b : Body D}, s.entries[i]? = some e →
    e.callback.body? = some b → Submitted past i b
  park : ∀ {i : Nat} {b : Body D}, .park i b ∈ s.work → Submitted past i b
  finish : ∀ {i : Nat} {r : Result D}, .finish i r ∈ s.work →
    ∃ b, Submitted past i b ∧ r = b.result
  answer : ∀ {i : Nat} {e : Entry D} {o : Outcome (Value D)}, s.entries[i]? = some e →
    e.callback = .returned o → Returned past i o

theorem Act.Enabled.mem (ha : (Act.item w).Enabled s) : w ∈ s.work := List.mem_of_mem_head? ha

theorem Faithful.apply (h : Faithful past s) (ha : a.Enabled s) (hs : s.Sound) :
    Faithful ((s, a) :: past) (a.apply s) := by
  have hsub : past ⊆ (s, a) :: past := List.subset_cons_self ..
  constructor
  · intro i f b hf hb
    obtain ⟨e, he, hef⟩ | ⟨kind, body, hsubmits, hi, rfl⟩ := Act.entry_cases hs.isCoherent hf
    · obtain hold | rfl := hef.body hb
      · exact (h.body he hold).mono hsub
      · exact (h.park ha.mem).mono hsub
    · suffices body = b from ⟨s, a, kind, List.mem_cons_self, this ▸ hsubmits, hi⟩
      unfold newcomer at hb
      split at hb
      · cases hb
      · exact Option.some.inj hb
  · intro i b hw
    obtain hw | hw := ha.issued hs hw
    · exact (h.park (List.mem_of_mem_tail hw)).mono hsub
    · cases hw with
      | plain hn => cases hn
      | park hb =>
          obtain ⟨e, he, hb⟩ := hb
          exact (h.body he (by rw [hb]; rfl)).mono hsub
  · intro i r hw
    obtain hw | hw := ha.issued hs hw
    · exact (h.finish (List.mem_of_mem_tail hw)).imp fun b => And.imp_left (·.mono hsub)
    · cases hw with
      | plain hn => cases hn
      | @finish _ b hb =>
          obtain ⟨e, he, hb⟩ := hb
          have hbody : e.callback.body? = some b := by
            obtain hb | hb := hb
            · rw [hb]; rfl
            · rw [hb]; rfl
          exact ⟨b, (h.body he hbody).mono hsub, rfl⟩
  · intro i f o hf ho
    obtain ⟨e, he, hef⟩ | ⟨kind, body, _, _, rfl⟩ := Act.entry_cases hs.isCoherent hf
    · obtain hold | ⟨r, rfl, rfl⟩ := hef.answer_of_returned ho
      · exact (h.answer he hold).mono hsub
      · obtain ⟨b, hb, rfl⟩ := h.finish ha.mem
        exact ⟨s, b, hb.mono hsub, List.mem_cons_self, e, he, Result.comesTo_iff.mpr rfl⟩
    · unfold newcomer at ho
      split at ho <;> cases ho

theorem History.faithful (h : History permits past s) : Faithful past s := by
  induction h with
  | start => constructor <;> simp [Machine.start]
  | next h ha ih => exact ih.apply ha h.reachable.valid.sound

/-! ### What a callback has returned by the end of a move -/

/-- The callback of the request ends with `r`, unless it has returned already. -/
def Ends (s : Machine D) (i : Nat) (r : Result D) : Prop :=
  s.At i fun e => ∃ body, e.callback.body? = some body ∧ r = body.result

/-- A callback is to return when it was so before, or when it is just called or goes on. -/
theorem Act.Enabled.finish_cases {r : Result D} (ha : a.Enabled s) (hs : s.Sound)
    (ht : (a.apply s).Sound) (hw : .finish i r ∈ (a.apply s).work) :
    .finish i r ∈ s.work.tail ∨ a = .move (.advance i) ∧ s.Ends i r := by
  refine (ha.issued hs hw).imp_right fun hnew => ?_
  obtain ⟨f, hf, hrun⟩ := ht.performing hw rfl
  cases hnew with
  | plain hn => cases hn
  | @finish _ b hb =>
      obtain ⟨e, he, hb⟩ := hb
      have hbody : e.callback.body? = some b ∧ e.callback ≠ .running := by
        obtain hb | hb := hb <;> simp [hb, Callback.body?]
      refine ⟨?_, e, he, b, hbody.1, rfl⟩
      obtain ⟨g, hg, heg⟩ := (Act.edits hs.isCoherent a).entry he
      obtain rfl := Option.some.inj (hf.symm.trans hg)
      exact (heg.running hrun).resolve_left hbody.2

/-- In the course of a move that came to `s`: whatever is still to return does so at the end, and
what has returned meanwhile did so just now. -/
structure Answering (s t : Machine D) : Prop where
  last : ∀ {i : Nat} {r : Result D}, .finish i r ∈ t.work →
    (∃ l, t.work = l ++ [.finish i r]) ∧ s.Ends i r
  returned : ∀ {i : Nat} {o : Outcome (Value D)}, t.At i (·.callback = .returned o) →
    s.At i (·.callback = .returned o) ∨ t.work = [] ∧ ∃ r, s.Ends i r ∧
      t.At i fun e => o = r.outcome t.register e.request.tripped

/-- A callback that is called or goes on returns at the end, if it does not park. -/
theorem work_advance {r : Result D} (hw : s.work = []) (hr : .finish i r ∈ (s.advance i).work) :
    ∃ l, (s.advance i).work = l ++ [.finish i r] := by
  unfold advance at hr ⊢
  cases he : s.entries[i]? with
  | none => simp [he, hw] at hr
  | some e =>
      rw [he] at hr
      cases hc : e.callback with
      | offered body =>
          obtain ⟨_ | _ | _, pre, post, result⟩ := body
          · obtain rfl : r = result := by simpa [hc, push, put, pause, emit, hw] using hr
            exact ⟨pre.map .perform ++ post.map .perform, by
              simp [hc, push, put, pause, emit, hw]⟩
          · simp [hc, push, put, pause, emit, hw] at hr
          · simp [hc, push, put, pause, emit, hw] at hr
      | parked body =>
          obtain rfl : r = body.result := by simpa [hc, push, put, pause, emit, hw] using hr
          exact ⟨body.post.map .perform, by simp [hc, push, put, pause, emit, hw]⟩
      | _ => simp [hc, hw] at hr

/-- A callback that returns leaves nothing to be done and sets no flag. -/
theorem frame_finish {r : Result D} (he : s.entries[i]? = some e)
    (hf : (exec (.finish i r) s).entries[i]? = some f) :
    (exec (.finish i r) s).work = s.work ∧ (exec (.finish i r) s).register = s.register ∧
      f.request.tripped = e.request.tripped := by
  have hlt := (List.getElem?_eq_some_iff.mp he).1
  simp only [exec, finish, he] at hf ⊢
  split at hf
  all_goals
    rename_i ht
    simp only [put, emit, wakeTask, List.getElem?_set_self hlt, Option.some.injEq] at hf
    subst hf
    simp [ht, put, emit, wakeTask]

theorem Answering.begin (hs : s.Valid) (hw : s.work = []) (m : Move D) :
    Answering s (m.begin s) := by
  have ha : (Act.move m).Enabled s := hw
  have ht : (m.begin s).Valid := Run.valid (.single ha.step) hs
  constructor
  · intro i r hr
    obtain hold | ⟨hm, hends⟩ := ha.finish_cases hs.sound ht.sound hr
    · simp [hw] at hold
    · obtain rfl := Act.move.inj hm
      exact ⟨work_advance hw hr, hends⟩
  · intro i o ho
    obtain ⟨f, hf, hret⟩ := ho
    obtain ⟨e, he, hef⟩ | ⟨kind, body, _, _, rfl⟩ :=
      Act.entry_cases (a := .move m) hs.sound.isCoherent hf
    · obtain hold | ⟨r, ha, _⟩ := hef.answer_of_returned hret
      · exact .inl ⟨e, he, hold⟩
      · cases ha
    · unfold newcomer at hret
      split at hret <;> cases hret

theorem Answering.step (h : Answering s t) (ht : t.Valid) (hstep : t.step? = some u) :
    Answering s u := by
  obtain ⟨w, rest, hw, rfl⟩ := exists_of_step? hstep
  have hu := Run.valid (.single (.work hstep)) ht
  have ha : (Act.item w).Enabled t := Act.enabled_item.mpr ⟨rest, hw⟩
  rw [← Act.apply_item hw] at hu ⊢
  constructor
  · intro i r hr
    obtain hold | ⟨ha, _⟩ := ha.finish_cases ht.sound hu.sound hr
    · rw [hw, List.tail_cons] at hold
      obtain ⟨⟨l, hl⟩, hends⟩ := h.last (hw ▸ List.mem_cons_of_mem _ hold)
      obtain ⟨items, hitems, _⟩ := Act.issues ha ht.sound
      obtain ⟨_, heq⟩ | ⟨l, _, rfl⟩ := List.cons_eq_append_iff.mp (hw.symm.trans hl)
      · obtain rfl : [] = rest := (List.cons.inj heq).2
        cases hold
      · exact ⟨⟨items ++ l, by rw [hitems, hw, List.tail_cons, List.append_assoc]⟩, hends⟩
    · cases ha
  · intro i o ho
    obtain ⟨f, hf, hret⟩ := ho
    obtain ⟨e, he, hef⟩ | ⟨kind, body, _, _, rfl⟩ :=
      Act.entry_cases ht.sound.isCoherent hf
    · obtain hold | ⟨r, ha, ho⟩ := hef.answer_of_returned hret
      · exact .inl ((h.returned ⟨e, he, hold⟩).resolve_right (by simp [hw]))
      · obtain rfl := Act.item.inj ha
        obtain ⟨⟨l, hl⟩, hends⟩ := h.last (hw ▸ List.mem_cons_self)
        have hsingle := ht.sound.single
        obtain ⟨_, heq⟩ | ⟨l, _, rfl⟩ := List.cons_eq_append_iff.mp (hw.symm.trans hl)
        · obtain rfl : [] = rest := (List.cons.inj heq).2
          rw [Act.apply_item hw] at hf ⊢
          obtain ⟨hwork, hregister, htripped⟩ := frame_finish (s := { t with work := [] }) he hf
          rw [← hregister, ← htripped] at ho
          exact .inr ⟨hwork, r, hends, f, hf, ho⟩
        · rw [hw] at hsingle
          simp [Work.ends?] at hsingle
    · unfold newcomer at hret
      split at hret <;> cases hret

/-- What a callback returned in the course of a move is what its result stands for at the end. -/
theorem returned_of_apply (hs : s.Valid) (hw : s.work = []) (m : Move D)
    (ho : (m.apply s).At i (·.callback = .returned o)) :
    s.At i (·.callback = .returned o) ∨ ∃ r, s.Ends i r ∧
      (m.apply s).At i fun e => o = r.outcome (m.apply s).register e.request.tripped := by
  have hbegin : (m.begin s).Valid := Run.valid (.single (.move m hw)) hs
  have h : (m.apply s).Valid ∧ Answering s (m.apply s) :=
    drain_induction (p := fun u => u.Valid ∧ Answering s u) (m.begin s)
      ⟨hbegin, .begin hs hw m⟩ fun hstep hu =>
        ⟨Run.valid (.single (.work hstep)) hu.1, hu.2.step hu.1 hstep⟩
  exact (h.2.returned ho).imp_right And.right

end Machine

end RequestScheduler
