import RequestScheduler.Proofs.Bound
import RequestScheduler.Proofs.Bulk
import RequestScheduler.Proofs.Ledger
import RequestScheduler.Proofs.Sealing

/-!
# What a bulk cancellation counts

A bulk cancellation takes the requests that the record lists one after the other, and counts those
that it finds without an outcome. Between two of them runs what the settlement of the first set off,
which may dispatch or vacate slots, but settles nobody as long as the clients let the manager and
the pending requests alone (`Machine.Meddles`). So whoever is pending when the call begins is found
pending when its turn comes, once (`Machine.Counting`), and is cancelled then (`Machine.Fate`).
-/

namespace RequestScheduler

variable {D : Type}

/-- Whatever is done to a request but a publication leaves it settled or not. -/
theorem Entry.Edit.isSettled {a : Machine.Act D} {n : Int64} {p : Option Permits} {i : Nat}
    {e f : Entry D} (h : e.Edit a n p i f) (ha : ∀ o, a ≠ .item (.settle i o)) :
    f.request.isSettled = e.request.isSettled := by
  cases h with
  | publish h => exact absurd h (ha _)
  | register => exact Cell.isSettled_register _ _
  | await => exact Cell.isSettled_await _ _
  | take => exact Cell.isSettled_take _
  | _ => rfl

/-- Records that count the same, and are open or closed alike. -/
structure Admission.Alike (a b : Admission) : Prop where
  closed : b.closed = a.closed
  admittedReads : b.admittedReads = a.admittedReads
  admittedWrites : b.admittedWrites = a.admittedWrites
  supersededWrites : b.supersededWrites = a.supersededWrites
  rejected : b.rejected = a.rejected

namespace Admission

variable {a b c : Admission}

theorem Alike.refl (a : Admission) : a.Alike a := ⟨rfl, rfl, rfl, rfl, rfl⟩

theorem Alike.prune (vacated : Nat → Bool) (a : Admission) : a.Alike (a.prune vacated) :=
  ⟨rfl, rfl, rfl, rfl, rfl⟩

theorem Alike.trans (h₁ : a.Alike b) (h₂ : b.Alike c) : a.Alike c where
  closed := h₂.closed.trans h₁.closed
  admittedReads := h₂.admittedReads.trans h₁.admittedReads
  admittedWrites := h₂.admittedWrites.trans h₁.admittedWrites
  supersededWrites := h₂.supersededWrites.trans h₁.supersededWrites
  rejected := h₂.rejected.trans h₁.rejected

end Admission

namespace Machine

variable {s t u : Machine D} {bound : Option Nat} {i n x : Nat} {e f : Entry D} {w : Work D}
  {l : List Nat} {struck : Option Nat} {front items : List (Work D)}

/-- How many requests have no outcome yet. -/
def pendings (s : Machine D) : Nat := (s.entries.map (·.request.isSettled)).count false

/-- Whether a work item calls the manager to submit or to cancel, or cancels a pending request for a
client. -/
def Meddles (s : Machine D) : Work D → Prop
  | .perform (.submit ..) | .perform .cancelAll => True
  | .perform (.cancel i) => ∃ e, s.held? i = some e ∧ e.request.isSettled = false
  | _ => False

/-- Nobody meddles with a bulk cancellation while it is going on. -/
def Unmeddled (s : Machine D) : Prop :=
  ∀ {u : Machine D} {w : Work D}, (s.cancelAll []).Amid u → u.work.head? = some w → ¬u.Meddles w

theorem submits?_of_not_meddles (h : ¬s.Meddles w) : (Act.item w).submits? = none := by
  cases w with
  | perform a =>
      cases a with
      | submit => exact absurd trivial h
      | _ => rfl
  | _ => rfl

theorem not_meddles_of_isQuiet (h : w.isQuiet = true) : ¬s.Meddles w := by
  cases w with
  | perform c => cases c <;> simp_all [Work.isQuiet, Effect.isQuiet, Meddles]
  | _ => exact id

/-- Whether a work item that a cancellation sets off settles nobody. -/
def Harmless (s : Machine D) : Work D → Prop
  | .settle i _ => s.At i (·.request.isSettled = true)
  | .skip _ | .openVacancy _ | .run _ | .perform _ | .emit _ | .note _ | .release _
  | .dispatch _ => True
  | _ => False

theorem Harmless.grow (h : s.Harmless w) (hg : s.Grows t) : t.Harmless w := by
  cases w with
  | settle => exact h.mono hg (·.isSettled)
  | _ => exact h

theorem harmless_run {ks : List (Continuation D)} : ∀ w ∈ ks.map Work.run, s.Harmless w := by
  intro w hw
  obtain ⟨k, _, rfl⟩ := List.mem_map.mp hw
  trivial

theorem harmless_openVacancy (i : Nat) (s : Machine D) : ∃ items,
    (s.openVacancy i []).work = items ++ s.work ∧ ∀ w ∈ items, t.Harmless w := by
  unfold openVacancy
  split
  · exact ⟨[], rfl, List.forall_mem_nil _⟩
  split
  · exact ⟨[], rfl, List.forall_mem_nil _⟩
  · exact ⟨_, by rw [List.append_nil], harmless_run⟩

theorem harmless_skip (i : Nat) (s : Machine D) : ∃ items,
    (s.skip i).work = items ++ s.work ∧ ∀ w ∈ items, t.Harmless w := by
  unfold skip
  split
  · exact ⟨[], rfl, List.forall_mem_nil _⟩
  split
  · exact ⟨[.openVacancy i], rfl, by simp [Harmless]⟩
  · exact ⟨[], rfl, List.forall_mem_nil _⟩

/-- What clients do sets off nothing that settles anybody, unless they meddle. -/
theorem harmless_perform {c : Effect D} (hm : ¬s.Meddles (.perform c))
    (hg : s.Grows (s.perform c)) : ∃ items, (s.perform c).work = items ++ s.work ∧
      ∀ w ∈ items, (s.perform c).Harmless w := by
  cases c with
  | set | add | mul | log | status | snapshot => exact ⟨[], rfl, List.forall_mem_nil _⟩
  | submit | cancelAll => exact absurd trivial hm
  | cancel i =>
      cases hi : s.held? i with
      | none => exact ⟨[], by simp [perform, hi, emit], List.forall_mem_nil _⟩
      | some e =>
          simp only [perform, hi] at hg ⊢
          refine ⟨_, work_cancelThen _ _ s, fun w hw => ?_⟩
          have hset : e.request.isSettled = true := by
            rw [← Bool.not_eq_false]
            exact fun hp => hm ⟨e, hi, hp⟩
          obtain rfl | hw := List.mem_cons.mp hw
          · exact At.mono ⟨e, (Option.filter_eq_some_iff.mp hi).1, hset⟩ hg (·.isSettled)
          · obtain rfl := List.mem_singleton.mp hw
            trivial
  | onSettled i tag effects =>
      unfold perform
      dsimp only
      split
      · exact ⟨[], rfl, List.forall_mem_nil _⟩
      unfold onSettled
      split
      · exact ⟨[_], rfl, by simp [Harmless]⟩
      split
      · exact ⟨[_, _], rfl, by simp [Harmless]⟩
      · exact ⟨[_], rfl, by simp [Harmless]⟩

/-- What a cancellation sets off settles nobody, and no more does what that leaves to be done. -/
theorem Harmless.leaves (h : s.Harmless w) (hm : ¬s.Meddles w) (hl : s.live = true)
    (hg : s.Grows (exec w s)) : ∃ items, (exec w s).work = items ++ s.work ∧
      ∀ v ∈ items, (exec w s).Harmless v := by
  cases w with
  | settle i o =>
      obtain ⟨e, he, hset⟩ := h
      refine ⟨[], ?_, List.forall_mem_nil _⟩
      simp [exec, settle, he, hset]
  | emit | note => exact ⟨[], rfl, List.forall_mem_nil _⟩
  | perform c => exact harmless_perform hm hg
  | run k =>
      cases k with
      | release g => exact ⟨[.release g], rfl, by simp [Harmless]⟩
      | react tag effects =>
          refine ⟨effects.map .perform, rfl, fun w hw => ?_⟩
          obtain ⟨a, _, rfl⟩ := List.mem_map.mp hw
          trivial
      | announce => exact ⟨[], rfl, List.forall_mem_nil _⟩
  | skip i => exact harmless_skip i s
  | openVacancy i => exact harmless_openVacancy i s
  | release g =>
      simp only [exec, release]
      split
      · exact ⟨[], rfl, List.forall_mem_nil _⟩
      split
      · exact ⟨[_], rfl, by simp [Harmless]⟩
      · exact ⟨[], rfl, List.forall_mem_nil _⟩
  | dispatch i =>
      simp only [exec, dispatch]
      split
      · exact ⟨[], rfl, List.forall_mem_nil _⟩
      split
      · split
        · exact harmless_skip i s
        · exact ⟨[], rfl, List.forall_mem_nil _⟩
      · exact ⟨[], rfl, List.forall_mem_nil _⟩
  | _ => cases h

/-- Work that admits nobody leaves everybody settled or not, unless it settles somebody. -/
theorem settled_exec (hn : (Act.item w).submits? = none)
    (hw : ∀ {i : Nat} {o : Outcome (Value D)}, w = .settle i o →
      s.At i (·.request.isSettled = true)) :
    (exec w s).entries.map (·.request.isSettled) = s.entries.map (·.request.isSettled) := by
  have hedits := exec_edits w s
  refine List.ext_getElem? fun i => ?_
  rw [List.getElem?_map, List.getElem?_map]
  cases he : s.entries[i]? with
  | none =>
      rw [List.getElem?_eq_none_iff, ← hedits.length hn, ← List.getElem?_eq_none_iff] at he
      rw [he]
  | some e =>
      obtain ⟨f, hf, hef⟩ := hedits.entry he
      rw [hf]
      apply congrArg some
      by_cases hsettle : ∃ o, w = .settle i o
      · -- The request is settled already, so that nothing is published.
        obtain ⟨o, rfl⟩ := hsettle
        have hset := (hw rfl).of_entry he
        simp only [exec, settle, he, hset, ↓reduceIte] at hf
        rw [Option.some.inj hf]
      · exact hef.isSettled fun o ho => hsettle ⟨o, Act.item.inj ho⟩

theorem At.settled_congr {b : Bool} (h : s.At i (·.request.isSettled = b))
    (ht : t.entries.map (·.request.isSettled) = s.entries.map (·.request.isSettled)) :
    t.At i (·.request.isSettled = b) := by
  obtain ⟨e, he, hb⟩ := h
  have hi := congrArg (·[i]?) ht
  simp only [List.getElem?_map, he, Option.map_some] at hi
  obtain ⟨f, hf, hef⟩ := Option.map_eq_some_iff.mp hi
  exact ⟨f, hf, hef.trans hb⟩

theorem pendings_pos (h : s.At i (·.request.isSettled = false)) : 0 < s.pendings := by
  obtain ⟨e, he, hp⟩ := h
  exact List.count_pos_iff.mpr (List.mem_map.mpr ⟨e, List.mem_of_getElem? he, hp⟩)

theorem pendings_eq_zero_iff : s.pendings = 0 ↔ ∀ e ∈ s.entries, e.request.isSettled = true := by
  simp [pendings, List.count_eq_zero]

/-- A publication settles one request more. -/
theorem pendings_settle {o : Outcome (Value D)} (he : s.entries[i]? = some e)
    (hp : e.request.isSettled = false) : (s.settle i o).pendings + 1 = s.pendings := by
  obtain ⟨hi, rfl⟩ := List.getElem?_eq_some_iff.mp he
  have hpos : 0 < s.pendings := pendings_pos ⟨_, he, hp⟩
  have hset : (s.settle i o).entries.map (·.request.isSettled) =
      (s.entries.map (·.request.isSettled)).set i true := by
    simp only [settle, he, hp, Bool.false_eq_true, ↓reduceIte, List.map_set]
    rw [Request.isSettled_publish]
  rw [pendings, hset, List.count_set (by simpa using hi)]
  simp only [pendings] at hpos ⊢
  simp [hp]
  omega

/-- How far a bulk cancellation has come that is to find `n` requests pending: the turn of those in
`l` is still to come, and `struck` is the one that is being settled. -/
inductive Counting (s : Machine D) (n : Nat) :
    Option Nat → List Nat → List (Work D) → Prop
  | turn {l : List Nat} {set : List (Work D)} {total count : Nat}
      (hset : ∀ w ∈ set, s.Harmless w) (hl : s.live = true ∨ set = [] ∧ l = [])
      (hn : count + s.pendings = n) : Counting s n none l (set ++ [.cancelEach l total count])
  | struck {i : Nat} {l : List Nat} {set : List (Work D)} {total count : Nat}
      (hi : s.At i fun e => e.request.isSettled = false ∧ e.request.tripped = true)
      (hset : ∀ w ∈ set, s.Harmless w) (hl : s.live = true) (hn : count + s.pendings = n + 1) :
      Counting s n (some i) l (.settle i (.error .cancelled) :: set ++ [.cancelEach l total count])
  | finished (hn : s.tally + s.pendings = n) : Counting s n none [] []

/-- What becomes of a request that was pending when the call began. -/
inductive Fate (s : Machine D) (struck : Option Nat) (l : List Nat) (x : Nat) : Prop
  | listed (hx : x ∈ l) (hp : s.At x (·.request.isSettled = false))
  | struck (hx : struck = some x)
  | cancelled (h : s.At x fun e =>
      e.request.tripped = true ∧ e.request.cell.value? = some (.error .cancelled))

theorem Fate.keep (hx : s.Fate struck l x) (hg : s.Grows t)
    (ht : t.entries.map (·.request.isSettled) = s.entries.map (·.request.isSettled)) :
    t.Fate struck l x := by
  cases hx with
  | listed hx hp => exact .listed hx (hp.settled_congr ht)
  | struck hx => exact .struck hx
  | cancelled h => exact .cancelled (h.mono hg fun he hf => ⟨he.tripped hf.1, he.value _ hf.2⟩)

/-- The call goes on counting, and everybody who was pending meets with the same fate. -/
def Recounts (s : Machine D) (n : Nat) (struck : Option Nat) (l : List Nat) (t : Machine D)
    (front : List (Work D)) : Prop :=
  ∃ (struck' : Option Nat) (l' : List Nat), t.Counting n struck' l' front ∧
    ∀ {x : Nat}, s.Fate struck l x → t.Fate struck' l' x

variable {rest set : List (Work D)} {total count : Nat}

/-- What was set off settles nobody. -/
theorem Harmless.recounts (h : s.Carries w front rest items t) (hm : ¬s.Meddles w)
    (hw : s.Harmless w) (hl : s.live = true) :
    t.pendings = s.pendings ∧ t.live = true ∧ (∀ v ∈ items, t.Harmless v) ∧
      ∀ {x : Nat}, s.Fate struck l x → t.Fate struck l x := by
  have hg : Grows { s with work := front ++ rest } (exec w { s with work := front ++ rest }) := by
    rw [← h.eq]
    exact ⟨h.grows.entry, h.grows.live⟩
  obtain ⟨m, hwork, hm'⟩ := Harmless.leaves (s := { s with work := front ++ rest }) hw hm hl hg
  obtain rfl := h.items_eq hwork
  have hsame : t.entries.map (·.request.isSettled) = s.entries.map (·.request.isSettled) := by
    rw [h.eq]
    exact settled_exec (submits?_of_not_meddles hm) fun hi => by subst hi; exact hw
  refine ⟨congrArg (List.count false) hsame, ?_, h.eq ▸ hm', fun hx => hx.keep h.grows hsame⟩
  rw [h.eq]
  exact (live_exec w _).trans hl

/-- The turn comes of request `i`, which is counted if it is pending. -/
theorem recounts_cancelEach (h : s.Carries (.cancelEach (i :: l) total count) [] rest items t)
    (hl : s.live = true) (hn : count + s.pendings = n) :
    s.Recounts n none (i :: l) t (items ++ []) := by
  obtain ⟨e, he, _⟩ := h.valid.sound.work (w := .cancelEach (i :: l) total count)
    (by rw [h.work]; exact List.mem_cons_self) i List.mem_cons_self
  obtain rfl := h.items_eq (work_cancelThen _ _ _)
  have hlive : t.live = true := by
    rw [h.eq]
    exact (live_exec _ _).trans hl
  have hsame : t.entries.map (·.request.isSettled) = s.entries.map (·.request.isSettled) := by
    rw [h.eq]
    exact settled_exec rfl (by simp)
  have hpend : t.pendings = s.pendings := congrArg (List.count false) hsame
  have htripped : t.At i fun f =>
      f.request.isSettled = e.request.isSettled ∧ f.request.tripped = true := by
    refine At.of_set (f := { e with request := e.request.trip }) he ?_ ⟨rfl, rfl⟩
    rw [h.eq]
    simp [exec, cancelEach, cancelThen, trip, he, put, push]
  have hpending : isPending { s with work := [] ++ rest } i = !e.request.isSettled := by
    simp only [isPending, he]
  rw [hpending]
  have fate {x : Nat} {struck : Option Nat} (hx : s.Fate none (i :: l) x)
      (hi : e.request.isSettled = false → struck = some i) : t.Fate struck l x := by
    cases hx.keep h.grows hsame with
    | listed hx hp =>
        obtain rfl | hx := List.mem_cons.mp hx
        · obtain ⟨f, hf, hfe, _⟩ := htripped
          exact .struck (hi (hfe.symm.trans (hp.of_entry hf)))
        · exact .listed hx hp
    | struck hx => cases hx
    | cancelled h => exact .cancelled h
  cases hs : e.request.isSettled with
  | false =>
      have hskip : ∀ w ∈ [Work.skip i], t.Harmless w := by simp [Harmless]
      refine ⟨some i, l, .struck (hs ▸ htripped) hskip hlive ?_, fun hx => fate hx fun _ => rfl⟩
      simp [hpend]
      omega
  | true =>
      have hset : ∀ w ∈ [Work.settle i (.error .cancelled), .skip i], t.Harmless w := by
        simp only [List.mem_cons, List.not_mem_nil, or_false]
        rintro _ (rfl | rfl)
        · exact htripped.imp fun f hf => hf.1.trans hs
        · trivial
      refine ⟨none, l, .turn hset (.inl hlive) ?_, fun hx => fate hx fun hp => ?_⟩
      · simpa [hpend] using hn
      · cases hs.symm.trans hp

/-- The request that was found pending settles as cancelled. -/
theorem recounts_settle (h : s.Carries (.settle i (.error .cancelled)) (set ++ [.cancelEach l total
      count]) rest items t)
    (hi : s.At i fun e => e.request.isSettled = false ∧ e.request.tripped = true)
    (hset : ∀ w ∈ set, s.Harmless w) (hl : s.live = true) (hn : count + s.pendings = n + 1) :
    s.Recounts n (some i) l t (items ++ (set ++ [.cancelEach l total count])) := by
  obtain ⟨e, he, hp, htripped⟩ := hi
  have hexec : exec (.settle i (.error .cancelled))
      { s with work := (set ++ [.cancelEach l total count]) ++ rest } =
      settle i (.error .cancelled)
        { s with work := (set ++ [.cancelEach l total count]) ++ rest } := rfl
  obtain rfl := h.items_eq (m := e.request.cell.continuations.map .run) (by
    simp [exec, settle, he, hp])
  have hlive : t.live = true := by
    rw [h.eq]
    exact (live_exec _ _).trans hl
  have hpend : t.pendings + 1 = s.pendings := by
    rw [h.eq, hexec]
    exact pendings_settle he hp
  have hentries : t.entries =
      s.entries.set i { e with request := e.request.publish (.error .cancelled) } := by
    rw [h.eq]
    simp [exec, settle, he, hp]
  have hdone : t.At i fun f =>
      f.request.tripped = true ∧ f.request.cell.value? = some (.error .cancelled) := by
    refine At.of_set he hentries ⟨htripped, ?_⟩
    have hv : e.request.cell.value? = none := by
      rw [← Option.isNone_iff_eq_none, ← Option.isSome_eq_false_iff, Cell.isSome_value?]
      exact hp
    rw [Request.value?_publish, hv, Request.resolve, htripped]
    rfl
  refine ⟨none, l, ?_, fun {x} hx => ?_⟩
  · rw [← List.append_assoc]
    refine .turn (fun w hw => ?_) (.inl hlive) (by omega)
    obtain hw | hw := List.mem_append.mp hw
    · exact harmless_run w hw
    · exact (hset w hw).grow h.grows
  by_cases hxi : x = i
  · subst hxi
    exact .cancelled hdone
  cases hx with
  | listed hx hp =>
      obtain ⟨f, hf, hp⟩ := hp
      exact .listed hx ⟨f, by rw [hentries, List.getElem?_set_ne (Ne.symm hxi), hf], hp⟩
  | struck hx => exact absurd (Option.some.inj hx).symm hxi
  | cancelled hc =>
      exact .cancelled (hc.mono h.grows fun he hf => ⟨he.tripped hf.1, he.value _ hf.2⟩)

/-- One item of the call is carried out. -/
theorem Counting.carry (hc : s.Counting n struck l (w :: front))
    (h : s.Carries w front rest items t) (hm : ¬s.Meddles w) :
    s.Recounts n struck l t (items ++ front) := by
  generalize hfront : w :: front = all at hc
  cases hc with
  | finished => cases hfront
  | @struck i l set total count hi hset hl hn =>
      rw [List.cons_append] at hfront
      obtain ⟨rfl, rfl⟩ := List.cons.inj hfront
      exact recounts_settle h hi hset hl hn
  | @turn l set total count hset hl hn =>
      cases set with
      | cons v set =>
          rw [List.cons_append] at hfront
          obtain ⟨rfl, rfl⟩ := List.cons.inj hfront
          have hlive : s.live = true := hl.resolve_right (by simp)
          obtain ⟨hpend, hlive, hitems, hfate⟩ :=
            Harmless.recounts h hm (hset w List.mem_cons_self) hlive
          refine ⟨none, l, ?_, hfate⟩
          rw [← List.append_assoc]
          refine .turn (fun v hv => ?_) (.inl hlive) (by omega)
          obtain hv | hv := List.mem_append.mp hv
          · exact hitems v hv
          · exact (hset v (List.mem_cons_of_mem _ hv)).grow h.grows
      | nil =>
          obtain ⟨rfl, rfl⟩ := List.cons.inj hfront
          cases l with
          | nil =>
              obtain rfl := h.items_eq (m := []) rfl
              refine ⟨none, [], ?_, fun hx => hx.keep h.grows (by rw [h.eq]; rfl)⟩
              refine .finished ?_
              rw [h.eq]
              exact hn
          | cons i l => exact recounts_cancelEach h (hl.resolve_right (by simp)) hn

/-- The call is over. -/
theorem Counting.of_nil (hc : s.Counting n struck l []) :
    struck = none ∧ l = [] ∧ s.tally + s.pendings = n := by
  generalize hf : [] = front at hc
  cases hc with
  | turn => simp at hf
  | struck => simp at hf
  | finished hn => exact ⟨rfl, rfl, hn⟩

/-- Then everybody who was pending when it began is cancelled. -/
theorem Fate.of_nil (hx : s.Fate none [] x) : s.At x fun e =>
    e.request.tripped = true ∧ e.request.cell.value? = some (.error .cancelled) := by
  cases hx with
  | listed hx => cases hx
  | struck hx => cases hx
  | cancelled h => exact h

/-- At rest, whoever has no outcome was admitted and has not vacated. Admission is open then, and
the runtime is there. -/
theorem Reachable.pending (h : Reachable (Permits.ofBound bound) s) (hw : s.work = [])
    (he : s.entries[x]? = some e) (hp : e.request.isSettled = false) :
    e.stage ≠ .refused ∧ s.live = true ∧ x ∈ s.collected := by
  have hs := h.valid
  have hnot : e.request.status.isTerminal ≠ true := by simp [Request.isTerminal_status, hp]
  have hr : e.stage ≠ .refused := by
    intro hr
    have hv := h.answered.value he hr (.inl hw)
    simp [Request.isSettled, ← Cell.isSome_value?, hv] at hp
  have hx : s.Accepted e.kind x := ⟨e, he, rfl, hr⟩
  have hv : s.vacated x = false := by
    rw [vacated, he, ← Bool.not_eq_true]
    exact fun hv => hnot (hs.settled_of_vacated hw he fun _ => hv)
  refine ⟨hr, ?_, hs.mem_collected ?_ ⟨e, he, hr⟩ hv⟩
  · rw [← Bool.not_eq_false]
    intro hl
    have hover := h.awake.vacated_of_over hs hw ((h.stripped hl).over hw) hx
    cases hv.symm.trans hover
  · rw [← Bool.not_eq_true]
    exact fun hc => hnot ((h.sealed.settled hs.sound hc hw hx).of_entry he)

/-- A call that collects nobody counts nobody, whatever the runtime. -/
theorem Reachable.collected_of_lost (h : Reachable (Permits.ofBound bound) s) (hw : s.work = [])
    (hl : s.live = false) : s.collected = [] := by
  have gone {i : Nat} {kind : Kind} (hi : s.Accepted kind i) : s.vacated i = true :=
    h.awake.vacated_of_over h.valid hw ((h.stripped hl).over hw) hi
  have hr := h.valid.recorded
  rw [collected, List.append_eq_nil_iff]
  simp only [Admission.prune, List.filter_eq_nil_iff, Bool.not_eq_true', Bool.not_eq_false]
  exact ⟨fun i hi => gone (hr.write hi), fun i hi => gone (hr.read hi)⟩

/-- What a bulk cancellation that nobody meddles with has done when it is over. -/
structure Counted (s t : Machine D) : Prop where
  tally : t.tally = s.pendings
  settled : t.pendings = 0
  length : t.entries.length = s.entries.length
  cancelled : ∀ {i : Nat}, s.At i (·.request.isSettled = false) → t.At i fun f =>
    f.request.tripped = true ∧ f.request.cell.value? = some (.error .cancelled)
  alike : s.admission.Alike t.admission

/-- The call comes to its end. -/
theorem Reachable.counted (h : Reachable (Permits.ofBound bound) s) (hw : s.work = [])
    (ha : s.Unmeddled) : s.Counted s.cancelAllNow := by
  have hcall : Step s (s.cancelAll []) := .move .cancelAll hw
  have hvalid : (s.cancelAll []).Valid := Run.valid (.single hcall) h.valid
  have hwork : (s.cancelAll []).work = [] ++ [.cancelEach s.collected s.collected.length 0] := by
    show _ ++ s.work = _
    rw [hw]
    rfl
  have hstart : (s.cancelAll []).Counting s.pendings none s.collected (s.cancelAll []).work := by
    rw [hwork]
    refine .turn (List.forall_mem_nil _) ?_ (Nat.zero_add _)
    cases hl : s.live with
    | true => exact .inl hl
    | false => exact .inr ⟨rfl, h.collected_of_lost hw hl⟩
  have hfate {i : Nat} (hi : s.At i (·.request.isSettled = false)) :
      (s.cancelAll []).Fate none s.collected i := by
    obtain ⟨e, he, hp⟩ := hi
    exact .listed (h.pending hw he hp).2.2 ⟨e, he, hp⟩
  obtain ⟨_, hlen, halike, struck, l, hcount, hfate⟩ := hvalid.drain_carries
    (p := fun front t => t.entries.length = s.entries.length ∧ s.admission.Alike t.admission ∧
      ∃ struck l, t.Counting s.pendings struck l front ∧
        ∀ {i : Nat}, s.At i (·.request.isSettled = false) → t.Fate struck l i)
    ⟨rfl, .prune _ _, none, _, hstart, hfate⟩ (by
      rintro t u w f items ham hc ⟨hlen, halike, struck, l, hcount, hfate⟩
      have hm : ¬t.Meddles w := ha ham (by rw [hc.work]; rfl)
      obtain ⟨struck', l', hcount', hstep⟩ := hcount.carry hc hm
      have hn := submits?_of_not_meddles hm
      refine ⟨?_, halike.trans ?_, struck', l', hcount', fun hi => hstep (hfate hi)⟩
      · rw [hc.eq, (exec_edits w _).length hn, hlen]
      · obtain hsame | hprune := admission_exec hn { t with work := f ++ [] }
        · rw [hc.eq, hsame]
          exact .refl _
        · rw [hc.eq, hprune]
          exact .prune _ _)
  obtain ⟨rfl, rfl, hn⟩ := hcount.of_nil
  have hcancelled {i : Nat} (hi : s.At i (·.request.isSettled = false)) := (hfate hi).of_nil
  have hsettled : s.cancelAllNow.pendings = 0 := by
    refine pendings_eq_zero_iff.mpr fun f hf => ?_
    obtain ⟨i, hi⟩ := List.getElem?_of_mem hf
    have hlt : i < s.entries.length := hlen ▸ (List.getElem?_eq_some_iff.mp hi).1
    have he := List.getElem?_eq_getElem hlt
    cases hp : s.entries[i].request.isSettled with
    | false =>
        have hv := ((hcancelled ⟨_, he, hp⟩).of_entry hi).2
        rw [Request.isSettled, ← Cell.isSome_value?, hv]
        rfl
    | true =>
        have hg : s.Grows s.cancelAllNow := Run.grows (.head hcall (run_drain _)) h.valid
        obtain ⟨g, hgx, heg⟩ := hg.entry he
        exact Option.some.inj (hi.symm.trans hgx) ▸ heg.isSettled hp
  have htally : s.cancelAllNow.tally + s.cancelAllNow.pendings = s.pendings := hn
  exact ⟨by omega, hsettled, hlen, hcancelled, halike⟩

/-- In a machine whose continuations only look, nobody meddles with a bulk cancellation. -/
theorem Quiet.unmeddled (hq : s.Quiet) (h : s.Valid) (hw : s.work = []) : s.Unmeddled := by
  have hcall : Step s (s.cancelAll []) := .move .cancelAll hw
  have hwork : (s.cancelAll []).work = [] ++ [.cancelEach s.collected s.collected.length 0] := by
    show _ ++ s.work = _
    rw [hw]
    rfl
  have hstart : (s.cancelAll []).Orderly s.collected (s.cancelAll []).work :=
    ⟨hq, [], _, _, hwork, .each _ _, List.suffix_refl _, List.forall_mem_nil _⟩
  intro u w hu hhead hm
  obtain ⟨_, horderly⟩ := hu.induct (p := fun u => u.Valid ∧ u.Orderly s.collected u.work)
    ⟨Run.valid (.single hcall) h, hstart⟩ (by
      rintro u v hs ⟨hv, ho⟩
      obtain ⟨w, l, items, hwork, hleft, hc⟩ := hv.exists_carries hs
      exact ⟨hc.run.valid hv, hleft ▸ (hwork ▸ ho).carry hc⟩)
  obtain ⟨rest, hwork⟩ := List.head?_eq_some_iff.mp hhead
  obtain hquiet | ⟨l, hl, _⟩ := (hwork ▸ horderly : u.Orderly s.collected (w :: rest)).next
  · exact not_meddles_of_isQuiet hquiet hm
  · obtain ⟨_, _, _, rfl, _⟩ | ⟨_, _, _, ⟨_, _, rfl, _⟩ | ⟨rfl, _⟩⟩ := hl.head
    all_goals exact hm

/-- A bulk cancellation that no client meddles with counts the requests that were admitted and are
pending, and cancels them. Whoever has an outcome keeps it; the record counts what it has counted
before, and is as open; and the next bulk cancellation counts nobody. -/
theorem pending_counted (h : Reachable (Permits.ofBound bound) s) (hw : s.work = [])
    (ha : s.Unmeddled) :
    s.cancelAllNow.tally = s.entries.countP (fun e =>
      e.stage ≠ .refused ∧ e.request.status = .pending) ∧
    (∀ {i : Nat} {e : Entry D}, s.entries[i]? = some e → s.cancelAllNow.At i fun f =>
      (e.request.status = .pending →
        f.request.status = .cancelled ∧ f.request.tripped = true) ∧
      ∀ o, e.request.cell.value? = some o → f.request.cell.value? = some o) ∧
    s.cancelAllNow.entries.length = s.entries.length ∧
    s.admission.Alike s.cancelAllNow.admission ∧
    s.cancelAllNow.cancelAllNow.tally = 0 := by
  have hcall : Run s s.cancelAllNow := run_apply .cancelAll hw
  have hc := h.counted hw ha
  refine ⟨?_, fun {i e} he => ?_, hc.length, hc.alike, ?_⟩
  · rw [hc.tally, pendings, List.count, List.countP_map]
    refine List.countP_congr fun e he => ?_
    obtain ⟨i, hi⟩ := List.getElem?_of_mem he
    simp only [Function.comp_apply, beq_false, Bool.not_eq_true', decide_eq_true_eq,
      Request.status_eq_pending_iff]
    exact ⟨fun hp => ⟨(h.pending hw hi hp).1, hp⟩, And.right⟩
  · obtain ⟨f, hf, hef⟩ := (hcall.grows h.valid).entry he
    refine ⟨f, hf, fun hp => ?_, fun o => hef.value o⟩
    obtain ⟨ht, hv⟩ :=
      (hc.cancelled ⟨e, he, (Request.status_eq_pending_iff _).mp hp⟩).of_entry hf
    exact ⟨Request.status_of_value? hv, ht⟩
  · have hreach : Reachable (Permits.ofBound bound) s.cancelAllNow := .trans h hcall
    have hrest : s.cancelAllNow.work = [] := work_drain _
    have hquiet : s.cancelAllNow.Quiet := by
      intro i e he k hk
      have hset := pendings_eq_zero_iff.mp hc.settled e (List.mem_of_getElem? he)
      obtain ⟨v, taken, hcell⟩ := Cell.exists_of_isSettled hset
      rw [hcell] at hk
      cases hk
    have hagain := hreach.counted hrest (hquiet.unmeddled hreach.valid hrest)
    rw [hagain.tally, hc.settled]

/-- A read that was cancelled and does not return, a write that waits for it, a read that waits for
the write, and a client that looks at that read when the write settles. -/
def attended : Machine Unit :=
  (start none).play 8 [.submit .read { mode := .hold }, .poll 0, .advance 0, .cancel 0,
    .submit .write {}, .submit .read {}, .onSettled 1 () [.log (), .status 2]]

theorem pending_counted_attended : attended.work = [] ∧ attended.Unmeddled ∧
    attended.cancelAllNow.tally = 2 ∧
    (attended.cancelAllNow.At 2 fun f => f.request.status = .cancelled ∧ f.request.tripped = true) ∧
    attended.cancelAllNow.cancelAllNow.tally = 0 := by
  have hreach : Reachable (Permits.ofBound none) attended := run_play 8 _ (start none)
  have hrest : attended.work = [] := rfl
  have hquiet : attended.Quiet := by
    intro i e he k hk
    have hall : (attended.entries.all fun e => e.request.cell.continuations.all
        Continuation.isQuiet) = true := rfl
    exact List.all_eq_true.mp (List.all_eq_true.mp hall _ (List.mem_of_getElem? he)) k hk
  have hunmeddled : attended.Unmeddled := hquiet.unmeddled hreach.valid hrest
  obtain ⟨htally, hentries, _, _, hagain⟩ := pending_counted hreach hrest hunmeddled
  have hread : attended.At 2 (·.request.status = .pending) := ⟨_, rfl, rfl⟩
  obtain ⟨e, he, hp⟩ := hread
  exact ⟨hrest, hunmeddled, htally, (hentries he).imp fun _ hf => hf.1 hp, hagain⟩

end Machine

end RequestScheduler
