import Mathlib.Data.List.Induction
import RequestScheduler.Proofs.Flag
import RequestScheduler.Proofs.Launch

/-!
# The record and the history of submissions

What the admission record counts and lists is a function of the history: of the submissions that
were made, of the shutdown that ended admission, and of the slots that have vacated
(`Machine.Reckons`, `Machine.record_of_history`). The record is pruned now and then only, so what it
lists agrees with the history where slots are occupied (`Admission.Tracks`).
-/

namespace RequestScheduler

variable {D : Type}

/-- A submission, and whether it was admitted. -/
structure Submission where
  kind : Kind
  isAdmitted : Bool
  deriving DecidableEq, Repr

/-- The admitted requests of a kind, in the order of their admission. Requests are named in the
order of their submission. -/
def admitted (kind : Kind) (l : List Submission) : List Nat :=
  (List.range l.length).filter fun i => l[i]? = some ⟨kind, true⟩

/-- How many submissions were admitted. -/
def admissions (l : List Submission) : Nat := (admitted .read l).length + (admitted .write l).length

/-- How many submissions were refused. -/
def refusals (l : List Submission) : Nat := l.countP (!·.isAdmitted)

section Admitted

variable {kind : Kind} {l : List Submission} {i : Nat}

theorem mem_admitted : i ∈ admitted kind l ↔ l[i]? = some ⟨kind, true⟩ := by
  simp only [admitted, List.mem_filter, List.mem_range, decide_eq_true_eq, and_iff_right_iff_imp]
  exact fun h => (List.getElem?_eq_some_iff.mp h).1

theorem lt_of_mem_admitted (h : i ∈ admitted kind l) : i < l.length :=
  (List.getElem?_eq_some_iff.mp (mem_admitted.mp h)).1

/-- A request that is admitted is the last of its kind. -/
theorem admitted_concat (kind : Kind) (l : List Submission) (x : Submission) :
    admitted kind (l ++ [x]) = admitted kind l ++ if x = ⟨kind, true⟩ then [l.length] else [] := by
  have hold : (List.range l.length).filter (fun i => (l ++ [x])[i]? = some ⟨kind, true⟩) =
      admitted kind l := by
    refine List.filter_congr fun i hi => ?_
    rw [List.getElem?_append_left (List.mem_range.mp hi)]
  rw [admitted, List.length_append, List.length_singleton, List.range_succ, List.filter_append,
    hold, List.filter_cons, List.getElem?_concat_length]
  simp

theorem nodup_admitted (kind : Kind) (l : List Submission) : (admitted kind l).Nodup :=
  List.nodup_range.filter _

theorem admissions_concat (l : List Submission) (x : Submission) :
    admissions (l ++ [x]) = admissions l + if x.isAdmitted then 1 else 0 := by
  obtain ⟨kind, _ | _⟩ := x
  · simp [admissions, admitted_concat]
  · cases kind <;> simp [admissions, admitted_concat] <;> omega

/-- Every submission is admitted or refused. -/
theorem admissions_add_refusals (l : List Submission) : admissions l + refusals l = l.length := by
  induction l using List.reverseRecOn with
  | nil => rfl
  | append_singleton l x ih =>
      rw [admissions_concat, refusals, List.countP_append, ← refusals, List.length_append, ← ih]
      cases hx : x.isAdmitted <;> simp [hx] <;> omega

end Admitted

namespace Admission

/-- The record lists these reads and these writes as far as they have not vacated. -/
structure Tracks (a : Admission) (vacated : Nat → Bool) (rs ws : List Nat) : Prop where
  reads : a.reads.filter (!vacated ·) = rs.filter (!vacated ·)
  writes : a.writes.filter (!vacated ·) = ws.filter (!vacated ·)
  current : ∀ {w : Nat}, vacated w = false → (a.currentWrite = some w ↔ ws.getLast? = some w)

/-- The record has counted these submissions, and so many writes that were outrun. Its counters
wrap at 64 bits. -/
structure Counts (a : Admission) (l : List Submission) (outruns : Nat) : Prop where
  admittedReads : a.admittedReads = .ofNat (admitted .read l).length
  admittedWrites : a.admittedWrites = .ofNat (admitted .write l).length
  rejected : a.rejected = .ofNat (refusals l)
  lastSeq : a.lastSeq = .ofNat (admissions l)
  superseded : a.supersededWrites = .ofNat outruns

variable {a : Admission} {vacated vacated' : Nat → Bool} {rs ws l m : List Nat}

/-- Lists that agree where slots are occupied go on to do so while slots vacate. -/
theorem filter_vacated (hv : ∀ i, vacated i = true → vacated' i = true)
    (h : l.filter (!vacated ·) = m.filter (!vacated ·)) :
    l.filter (!vacated' ·) = m.filter (!vacated' ·) := by
  have twice (l : List Nat) :
      l.filter (!vacated' ·) = (l.filter (!vacated ·)).filter (!vacated' ·) := by
    rw [List.filter_filter]
    refine List.filter_congr fun i _ => ?_
    cases hi : vacated i with
    | false => simp
    | true => simp [hv i hi]
  rw [twice l, h, ← twice m]

namespace Counts

variable {n : Nat} {subs : List Submission} (h : a.Counts subs n)

include h

theorem prune : (a.prune vacated).Counts subs n :=
  ⟨h.admittedReads, h.admittedWrites, h.rejected, h.lastSeq, h.superseded⟩

theorem close : (a.close vacated).2.Counts subs n :=
  ⟨h.admittedReads, h.admittedWrites, h.rejected, h.lastSeq, h.superseded⟩

theorem reject (kind : Kind) : a.reject.Counts (subs ++ [⟨kind, false⟩]) n where
  admittedReads := h.admittedReads.trans (by simp [admitted_concat])
  admittedWrites := h.admittedWrites.trans (by simp [admitted_concat])
  rejected := by simp [refusals, Admission.reject, h.rejected]
  lastSeq := h.lastSeq.trans (by simp [admissions_concat])
  superseded := h.superseded

theorem admitRead (i : Nat) :
    (a.nextSeq.2.admitRead vacated i).2.Counts (subs ++ [⟨.read, true⟩]) n where
  admittedReads := (congrArg (· + 1) h.admittedReads).trans (by simp [admitted_concat])
  admittedWrites := h.admittedWrites.trans (by simp [admitted_concat])
  rejected := h.rejected.trans (by simp [refusals])
  lastSeq := (congrArg (· + 1) h.lastSeq).trans (by simp [admissions_concat])
  superseded := h.superseded

theorem admitWrite (i : Nat) :
    (a.nextSeq.2.admitWrite vacated i).2.Counts (subs ++ [⟨.write, true⟩])
      (if (a.snapshot vacated).1.writeCurrent then n + 1 else n) where
  admittedReads := h.admittedReads.trans (by simp [admitted_concat])
  admittedWrites := (congrArg (· + 1) h.admittedWrites).trans (by simp [admitted_concat])
  rejected := h.rejected.trans (by simp [refusals])
  lastSeq := (congrArg (· + 1) h.lastSeq).trans (by simp [admissions_concat])
  superseded := by
    have hsup : (a.nextSeq.2.admitWrite vacated i).2.supersededWrites =
        if (a.snapshot vacated).1.writeCurrent then a.supersededWrites + 1
        else a.supersededWrites := rfl
    rw [hsup, h.superseded]
    split <;> simp

end Counts

namespace Tracks

variable (h : a.Tracks vacated rs ws)

include h

theorem later (hv : ∀ i, vacated i = true → vacated' i = true) : a.Tracks vacated' rs ws where
  reads := filter_vacated hv h.reads
  writes := filter_vacated hv h.writes
  current hw := h.current (Bool.eq_false_iff.mpr fun ht => by simp [hv _ ht] at hw)

/-- It makes no difference to this whether the record was pruned. -/
theorem prune : (a.prune vacated).Tracks vacated rs ws where
  reads := by simpa [Admission.prune] using h.reads
  writes := by simpa [Admission.prune] using h.writes
  current hw := by simpa [Admission.prune, hw] using h.current hw

theorem admitRead (i : Nat) :
    (a.nextSeq.2.admitRead vacated i).2.Tracks vacated (rs ++ [i]) ws where
  reads := by
    simp only [Admission.admitRead, List.filter_append, ← h.prune.reads]
    rfl
  writes := h.prune.writes
  current := h.prune.current

theorem admitWrite (i : Nat) :
    (a.nextSeq.2.admitWrite vacated i).2.Tracks vacated rs (ws ++ [i]) where
  reads := h.prune.reads
  writes := by
    simp only [Admission.admitWrite, List.filter_append, ← h.prune.writes]
    rfl
  current _ := by simp [Admission.admitWrite]

/-- What is outstanding are the writes that have not vacated, then the reads. -/
theorem outstanding : (a.outstanding vacated).1 =
    ws.filter (!vacated ·) ++ rs.filter (!vacated ·) := by
  rw [← h.reads, ← h.writes]
  rfl

/-- A write is current if the last one has not vacated. -/
theorem writeCurrent : (a.snapshot vacated).1.writeCurrent = true ↔
    ∃ w, ws.getLast? = some w ∧ vacated w = false := by
  simp only [Admission.snapshot, Admission.prune, Option.isSome_filter, Option.any_eq_true,
    Bool.not_eq_true']
  exact exists_congr fun w => and_congr_left fun hw => h.current hw

end Tracks

end Admission

/-- What an entry says of its submission. -/
def Entry.submission (e : Entry D) : Submission := ⟨e.kind, e.stage != .refused⟩

theorem Entry.Grows.submission {e f : Entry D} (h : e.Grows f) : f.submission = e.submission := by
  have hstage : (f.stage != .refused) = (e.stage != .refused) := by
    rw [Bool.eq_iff_iff, bne_iff_ne, bne_iff_ne, Ne, Ne, h.refused]
  rw [Entry.submission, Entry.submission, h.kind, hstage]

namespace Machine

variable {s t : Machine D} {a : Act D} {permits : Option Permits} {step : Machine D × Act D}
  {past : List (Machine D × Act D)} {kind : Kind} {body : Body D} {i w : Nat}

/-- Whether an act closes admission. -/
def Act.closes : Act D → Bool
  | .move .shutdown => true
  | _ => false

/-- Whether admission has been closed. -/
def wasClosed (past : List (Machine D × Act D)) : Bool := past.any (·.2.closes)

/-- What was submitted, in its order. It was admitted if it came before admission was closed. -/
def submissions : List (Machine D × Act D) → List Submission
  | [] => []
  | (_, a) :: past =>
    submissions past ++ (a.submits?.map fun p => ⟨p.1, !wasClosed past⟩).toList

/-- Whether a write was admitted after `w`, and no write between them, before `w` vacated. -/
def outrun (w : Nat) : List (Machine D × Act D) → Bool
  | [] => false
  | (s, a) :: past => outrun w past ||
      (a.submits?.map (·.1) == some .write && !wasClosed past &&
        (admitted .write (submissions past)).getLast? == some w && !s.vacated w)

@[simp] theorem wasClosed_cons (s : Machine D) (a : Act D) (past : List (Machine D × Act D)) :
    wasClosed ((s, a) :: past) = (a.closes || wasClosed past) := rfl

/-- What a submission makes of the record. -/
def admitting (s : Machine D) (kind : Kind) : Admission :=
  if s.admission.closed then s.admission.reject
  else match kind with
    | .read => (s.admission.nextSeq.2.admitRead s.vacated s.entries.length).2
    | .write => (s.admission.nextSeq.2.admitWrite s.vacated s.entries.length).2

theorem admission_submit (kind : Kind) (body : Body D) (after : List (Work D)) (s : Machine D) :
    (s.submit kind body after).admission = s.admitting kind := by
  unfold submit admitting
  dsimp only
  split
  · rfl
  · cases kind with
    | read =>
        dsimp only
        split <;> rfl
    | write => rfl

theorem Act.admission_of_submits (ha : a.submits? = some (kind, body)) (s : Machine D) :
    (a.apply s).admission = s.admitting kind := by
  obtain ⟨l, after, happly⟩ := Act.apply_of_submits ha s
  rw [happly]
  exact admission_submit ..

@[simp] theorem admission_cancelThen (i : Nat) (after : List (Work D)) (s : Machine D) :
    (s.cancelThen i after).admission = s.admission :=
  (still_trip i s).admission

@[simp] theorem admission_skip (i : Nat) (s : Machine D) : (s.skip i).admission = s.admission := by
  unfold skip
  repeat' split
  all_goals rfl

@[simp] theorem admission_openVacancy (i : Nat) (after : List (Work D)) (s : Machine D) :
    (s.openVacancy i after).admission = s.admission := by
  unfold openVacancy
  repeat' split
  all_goals rfl

@[simp] theorem admission_onSettled (i : Nat) (tag : D) (effects : List (Effect D))
    (after : List (Work D)) (s : Machine D) :
    (s.onSettled i tag effects after).admission = s.admission := by
  unfold onSettled
  repeat' split
  all_goals rfl

theorem admission_endTask (i : Nat) (s : Machine D) : (s.endTask i).admission = s.admission := by
  unfold endTask
  split
  · rfl
  dsimp only
  split
  · exact (still_putPermit _).admission
  · exact (still_putPermit _).admission
  · rfl
  · rfl

/-- Work that submits nothing leaves the record as it is, or has it forget who has vacated. -/
theorem admission_exec {w : Work D} (hn : (Act.item w).submits? = none) (s : Machine D) :
    (exec w s).admission = s.admission ∨ (exec w s).admission = s.admission.prune s.vacated := by
  cases w with
  | perform c =>
      cases c with
      | submit => cases hn
      | cancelAll | snapshot => exact .inr rfl
      | cancel | onSettled =>
          left
          simp only [exec, perform]
          split
          · rfl
          · simp
      | _ => exact .inl rfl
  | endTask i => exact .inl (admission_endTask i s)
  | cancelSlot i => exact .inl (admission_cancelThen i _ s)
  | skip i => exact .inl (admission_skip i s)
  | openVacancy i => exact .inl (admission_openVacancy i _ s)
  | supersede | cancelEach =>
      left
      simp only [exec, supersede, cancelEach]
      split
      · simp [note]
      · simp
  | vacate | dispatch =>
      left
      simp only [exec, vacate, dispatch]
      repeat' split
      all_goals simp [put, note, wakeTask, push]
  | run k => cases k <;> exact .inl rfl
  | _ =>
      left
      simp only [exec, settle, await, release, handOver, park, finish]
      repeat' split
      all_goals rfl

/-- And so do moves, unless they submit something or close admission. -/
theorem admission_begin {m : Move D} (hn : (Act.move m).submits? = none)
    (hc : (Act.move m).closes = false) (s : Machine D) :
    (m.begin s).admission = s.admission ∨ (m.begin s).admission = s.admission.prune s.vacated := by
  cases m with
  | submit => cases hn
  | shutdown => cases hc
  | cancelAll | snapshot => exact .inr rfl
  | onSettled => exact .inl (admission_onSettled ..)
  | poll i =>
      left
      simp only [Move.begin]
      split
      · rfl
      · rename_i rest _
        obtain ⟨_, _, _, h⟩ := goesOn_poll (s := { s with ready := rest }) (i := i)
        exact h.admission
  | cancel i =>
      left
      simp only [Move.begin]
      split
      · exact admission_cancelThen i [] s
      · rfl
  | trip i =>
      left
      simp only [Move.begin]
      split
      · exact (still_trip i s).admission
      · rfl
  | _ =>
      left
      simp only [Move.begin, awaitRequest, takeOutcome, dropFuture, modify, releaseJob, advance]
      repeat' split
      all_goals rfl

theorem Act.admission_of_quiet (hn : a.submits? = none) (hc : a.closes = false) (s : Machine D) :
    (a.apply s).admission = s.admission ∨
      (a.apply s).admission = s.admission.prune s.vacated := by
  cases a with
  | item w => exact admission_exec hn { s with work := s.work.tail }
  | move m => exact admission_begin hn hc s

/-- The record agrees with the history. -/
structure Reckons (past : List (Machine D × Act D)) (s : Machine D) : Prop where
  entries : s.entries.map Entry.submission = submissions past
  closed : s.admission.closed = wasClosed past
  counts : s.admission.Counts (submissions past)
    ((admitted .write (submissions past)).countP (outrun · past))
  numbers : (s.entries.filter (·.submission.isAdmitted)).map Entry.seq =
    (List.range' 1 (admissions (submissions past))).map .ofNat
  tracks : wasClosed past = false → s.admission.Tracks s.vacated
    (admitted .read (submissions past)) (admitted .write (submissions past))
  /-- The last write has not been outrun. -/
  last : ∀ {w : Nat}, outrun w past = true → w ∈ admitted .write (submissions past) ∧
    (admitted .write (submissions past)).getLast? ≠ some w

theorem Act.closes_of_submits (ha : a.submits? = some (kind, body)) : a.closes = false := by
  cases a with
  | item => rfl
  | move m =>
      cases m with
      | shutdown => cases ha
      | _ => rfl

theorem Act.eq_of_closes (hc : a.closes = true) : a = .move .shutdown := by
  cases a with
  | item => cases hc
  | move m =>
      cases m with
      | shutdown => rfl
      | _ => cases hc

/-- What entries keep is the same throughout the list. -/
theorem Grows.map_entries {β : Type} {f : Entry D → β} (hg : s.Grows t)
    (hf : ∀ {e e' : Entry D}, e.Grows e' → f e' = f e) (hl : t.entries.length = s.entries.length) :
    t.entries.map f = s.entries.map f := by
  refine List.ext_getElem? fun i => ?_
  rw [List.getElem?_map, List.getElem?_map]
  cases he : s.entries[i]? with
  | none =>
      rw [List.getElem?_eq_none_iff] at he
      rw [List.getElem?_eq_none_iff.mpr (hl ▸ he)]
  | some e =>
      obtain ⟨e', he', hee'⟩ := hg.entry he
      rw [he', Option.map_some, Option.map_some, hf hee']

theorem submissions_of_open (hsub : a.submits? = some (kind, body)) (hc : wasClosed past = false) :
    submissions ((s, a) :: past) = submissions past ++ [⟨kind, true⟩] := by
  simp [submissions, hsub, hc]

/-- A write outruns the one before it, if that one has not vacated. -/
theorem outrun_write (hsub : a.submits? = some (.write, body)) (hc : wasClosed past = false) :
    outrun w ((s, a) :: past) = true ↔ outrun w past = true ∨
      (admitted .write (submissions past)).getLast? = some w ∧ s.vacated w = false := by
  simp [outrun, hsub, hc]

namespace Reckons

/-- Only writes from before are outrun by a write that comes in. -/
theorem mem_of_outrun (h : Reckons past s) (hsub : a.submits? = some (.write, body))
    (hc : wasClosed past = false) (hout : outrun w ((s, a) :: past) = true) :
    w ∈ admitted .write (submissions past) := by
  obtain hout | ⟨hlast, -⟩ := (outrun_write hsub hc).mp hout
  · exact (h.last hout).1
  · exact List.mem_of_getLast? hlast

/-- A write is counted as superseded when the next one is admitted before it has vacated. -/
theorem countP_outrun (h : Reckons past s) (hsub : a.submits? = some (.write, body))
    (hc : wasClosed past = false) :
    (admitted .write (submissions ((s, a) :: past))).countP (outrun · ((s, a) :: past)) =
      if s.snapshot.1.writeCurrent then
        (admitted .write (submissions past)).countP (outrun · past) + 1
      else (admitted .write (submissions past)).countP (outrun · past) := by
  have hnew : outrun (submissions past).length ((s, a) :: past) = false :=
    Bool.eq_false_iff.mpr fun hout =>
      Nat.lt_irrefl _ (lt_of_mem_admitted (h.mem_of_outrun hsub hc hout))
  rw [submissions_of_open hsub hc, admitted_concat, if_pos rfl, List.countP_append,
    List.countP_singleton, hnew, if_neg Bool.false_ne_true, Nat.add_zero]
  have hcurrent : s.snapshot.1.writeCurrent = true ↔ ∃ w,
      (admitted .write (submissions past)).getLast? = some w ∧ s.vacated w = false :=
    (h.tracks hc).writeCurrent
  split
  · rename_i hcur
    obtain ⟨w, hw, hv⟩ := hcurrent.mp hcur
    have hbefore : outrun w past = false := Bool.eq_false_iff.mpr fun hout => (h.last hout).2 hw
    have hnow : outrun w ((s, a) :: past) = true := (outrun_write hsub hc).mpr (.inr ⟨hw, hv⟩)
    obtain ⟨init, hinit⟩ := List.getLast?_eq_some_iff.mp hw
    have hothers : init.countP (outrun · ((s, a) :: past)) = init.countP (outrun · past) := by
      refine List.countP_congr fun x hx => ?_
      rw [outrun_write hsub hc, or_iff_left]
      rintro ⟨hlast, -⟩
      have hnodup := nodup_admitted .write (submissions past)
      rw [hinit, List.nodup_append] at hnodup
      exact hnodup.2.2 x hx w List.mem_cons_self (Option.some.inj (hlast.symm.trans hw))
    simp [hinit, hothers, hbefore, hnow]
  · rename_i hcur
    refine List.countP_congr fun x _ => ?_
    rw [outrun_write hsub hc, or_iff_left]
    exact fun hx => hcur (hcurrent.mpr ⟨x, hx⟩)

/-- An act that submits nothing. -/
theorem quiet (h : Reckons past s) (hs : s.Valid) (ha : a.Enabled s) (hn : a.submits? = none) :
    Reckons ((s, a) :: past) (a.apply s) := by
  have hg : s.Grows (a.apply s) := Run.grows (.single ha.step) hs
  have hl := (Act.edits hs.sound.isCoherent a).length hn
  have hsub : submissions ((s, a) :: past) = submissions past := by simp [submissions, hn]
  have hout (w : Nat) : outrun w ((s, a) :: past) = outrun w past := by
    simp [outrun, hn]
  have hnumbers : ((a.apply s).entries.filter (·.submission.isAdmitted)).map Entry.seq =
      (s.entries.filter (·.submission.isAdmitted)).map Entry.seq := by
    have hmap := hg.map_entries (f := fun e => (e.submission, e.seq))
      (fun hee' => by rw [hee'.submission, hee'.seq]) hl
    simpa [List.filter_map, Function.comp_def] using
      congrArg (fun l => (l.filter (·.1.isAdmitted)).map (·.2)) hmap
  have hrecord : (a.apply s).admission.closed = wasClosed ((s, a) :: past) ∧
      (a.apply s).admission.Counts (submissions past)
        ((admitted .write (submissions past)).countP (outrun · past)) ∧
      (wasClosed ((s, a) :: past) = false → (a.apply s).admission.Tracks s.vacated
        (admitted .read (submissions past)) (admitted .write (submissions past))) := by
    rw [wasClosed_cons]
    cases hc : a.closes with
    | true =>
        obtain rfl := Act.eq_of_closes hc
        have hadm : ((Act.move .shutdown).apply s).admission = (s.admission.close s.vacated).2 :=
          admission_closeDown s
        rw [hadm]
        exact ⟨rfl, h.counts.close, by simp⟩
    | false =>
        rw [Bool.false_or]
        obtain hadm | hadm := Act.admission_of_quiet hn hc s
        · rw [hadm]
          exact ⟨h.closed, h.counts, h.tracks⟩
        · rw [hadm]
          exact ⟨h.closed, h.counts.prune, fun ht => (h.tracks ht).prune⟩
  obtain ⟨hclosed, hcounts, htracks⟩ := hrecord
  refine ⟨?_, hclosed, ?_, ?_, fun ht => ?_, fun {w} => ?_⟩
  · rw [hsub, hg.map_entries (·.submission) hl, h.entries]
  · simpa only [hsub, hout] using hcounts
  · rw [hsub, hnumbers, h.numbers]
  · rw [hsub]
    exact (htracks ht).later fun _ => vacated_grow hg
  · rw [hsub, hout]
    exact h.last

/-- A submission that comes after admission was closed. -/
theorem refuse (h : Reckons past s) (hsub : a.submits? = some (kind, body))
    (hc : wasClosed past = true) :
    Reckons ((s, a) :: past) (a.apply s) := by
  have hentries : (a.apply s).entries = s.entries ++ [.refused kind] := by
    rw [Act.entries_of_submits hsub, newcomer, if_pos (h.closed.trans hc)]
  have hadm : (a.apply s).admission = s.admission.reject := by
    rw [Act.admission_of_submits hsub]
    exact if_pos (h.closed.trans hc)
  have hnext : submissions ((s, a) :: past) = submissions past ++ [⟨kind, false⟩] := by
    simp [submissions, hsub, hc]
  have hadmitted (k : Kind) :
      admitted k (submissions ((s, a) :: past)) = admitted k (submissions past) := by
    simp [hnext, admitted_concat]
  have hout (w : Nat) : outrun w ((s, a) :: past) = outrun w past := by
    simp [outrun, hc]
  refine ⟨?_, ?_, ?_, ?_, fun ht => ?_, fun {w} => ?_⟩
  · rw [hentries, List.map_append, h.entries, hnext]
    rfl
  · rw [hadm, wasClosed_cons, hc, Bool.or_true]
    exact h.closed.trans hc
  · simp only [hadmitted, hout]
    exact hadm ▸ hnext ▸ h.counts.reject kind
  · rw [hnext, admissions_concat, hentries, List.filter_append, List.map_append, h.numbers]
    simp [Entry.submission, Entry.refused]
  · simp [hc] at ht
  · rw [hadmitted, hout]
    exact h.last

/-- An act that submits a request while admission is open. -/
theorem accept (h : Reckons past s) (hs : s.Valid) (ha : a.Enabled s)
    (hsub : a.submits? = some (kind, body)) (hc : wasClosed past = false) :
    Reckons ((s, a) :: past) (a.apply s) := by
  have hg : s.Grows (a.apply s) := Run.grows (.single ha.step) hs
  have hopen : s.admission.closed = false := h.closed.trans hc
  have hentries : (a.apply s).entries =
      s.entries ++ [.queued kind (s.admission.lastSeq + 1) (.callback body)] := by
    rw [Act.entries_of_submits hsub, newcomer, hopen]
    rfl
  have hnext := submissions_of_open hsub hc (s := s)
  have hlen : s.entries.length = (submissions past).length := by rw [← h.entries, List.length_map]
  have hrecord : (s.admitting kind).closed = false ∧
      (s.admitting kind).Counts (submissions ((s, a) :: past))
        ((admitted .write (submissions ((s, a) :: past))).countP (outrun · ((s, a) :: past))) ∧
      (s.admitting kind).Tracks s.vacated (admitted .read (submissions ((s, a) :: past)))
        (admitted .write (submissions ((s, a) :: past))) ∧
      ∀ {w : Nat}, outrun w ((s, a) :: past) = true →
        w ∈ admitted .write (submissions ((s, a) :: past)) ∧
          (admitted .write (submissions ((s, a) :: past))).getLast? ≠ some w := by
    cases kind with
    | read =>
        have hadm : s.admitting .read =
            (s.admission.nextSeq.2.admitRead s.vacated s.entries.length).2 :=
          if_neg (by simp [hopen])
        have hout (w : Nat) : outrun w ((s, a) :: past) = outrun w past := by
          simp [outrun, hsub]
        simp only [hnext, admitted_concat, if_pos, hadm, hlen, hout, Submission.mk.injEq,
          reduceCtorEq, and_true, if_false, List.append_nil]
        exact ⟨hopen, h.counts.admitRead _, (h.tracks hc).admitRead _, h.last⟩
    | write =>
        have hadm : s.admitting .write =
            (s.admission.nextSeq.2.admitWrite s.vacated s.entries.length).2 :=
          if_neg (by simp [hopen])
        rw [h.countP_outrun hsub hc]
        simp only [hnext, admitted_concat, if_pos, hadm, hlen, Submission.mk.injEq,
          reduceCtorEq, and_true, if_false, List.append_nil]
        refine ⟨hopen, h.counts.admitWrite _, (h.tracks hc).admitWrite _, fun {w} hout => ?_⟩
        have hmem := h.mem_of_outrun hsub hc hout
        have hlt := lt_of_mem_admitted hmem
        simp [hmem, Nat.ne_of_gt hlt]
  obtain ⟨hclosed, hcounts, htracks, hlast⟩ := hrecord
  rw [← Act.admission_of_submits hsub] at hclosed hcounts htracks
  refine ⟨?_, ?_, hcounts, ?_, fun _ => htracks.later fun _ => vacated_grow hg, hlast⟩
  · rw [hentries, List.map_append, h.entries, hnext]
    rfl
  · rw [hclosed, wasClosed_cons, Act.closes_of_submits hsub, hc]
    rfl
  · rw [hnext, admissions_concat, hentries, List.filter_append, List.map_append, h.numbers,
      if_pos rfl, List.range'_1_concat, List.map_append, Nat.add_comm 1]
    simp [Entry.submission, Entry.queued, h.counts.lastSeq]

end Reckons

/-- The record agrees with every history. -/
theorem History.reckons (h : History permits past s) : Reckons past s := by
  induction h with
  | start =>
      refine ⟨rfl, rfl, ⟨rfl, rfl, rfl, rfl, rfl⟩, rfl, fun _ => ⟨rfl, rfl, ?_⟩, ?_⟩
      · simp [Machine.start, submissions, admitted]
      · simp [outrun]
  | @next past s a h ha ih =>
      cases hsub : a.submits? with
      | none => exact ih.quiet h.reachable.valid ha hsub
      | some p =>
          obtain ⟨kind, body⟩ := p
          cases hc : wasClosed past with
          | true => exact ih.refuse hsub hc
          | false => exact ih.accept h.reachable.valid ha hsub hc

/-- The requests of a kind that were admitted and have not vacated, in the order of their
admission. -/
def occupying (s : Machine D) (past : List (Machine D × Act D)) (kind : Kind) : List Nat :=
  (admitted kind (submissions past)).filter (!s.vacated ·)

/-- What a snapshot shows now, and what the record lists as outstanding. -/
structure Accounts (past : List (Machine D × Act D)) (s : Machine D) : Prop where
  entries : s.entries.map Entry.submission = submissions past
  admittedReads : s.snapshot.1.admittedReads.toNat = (admitted .read (submissions past)).length
  admittedWrites : s.snapshot.1.admittedWrites.toNat = (admitted .write (submissions past)).length
  rejected : s.snapshot.1.rejected.toNat = refusals (submissions past)
  /-- Whoever was admitted has the next number, from one on. -/
  numbers : (s.entries.filter (·.submission.isAdmitted)).map (·.seq.toNat) =
    List.range' 1 (s.snapshot.1.admittedReads.toNat + s.snapshot.1.admittedWrites.toNat)
  superseded : s.snapshot.1.supersededWrites.toNat =
    (admitted .write (submissions past)).countP (outrun · past)
  closed : s.snapshot.1.closed = wasClosed past
  outstanding : wasClosed past = false →
    s.outstanding.1 = s.occupying past .write ++ s.occupying past .read
  nodup : s.outstanding.1.Nodup
  outstandingReads : wasClosed past = false →
    s.snapshot.1.outstandingReads = (s.occupying past .read).length
  outstandingWrites : wasClosed past = false →
    s.snapshot.1.outstandingWrites = (s.occupying past .write).length
  /-- A write is current exactly if the last one has not vacated. -/
  writeCurrent : wasClosed past = false → (s.snapshot.1.writeCurrent = true ↔
    ∃ w, (admitted .write (submissions past)).getLast? = some w ∧ s.vacated w = false)
  /-- A closed record lists nobody. -/
  ended : wasClosed past = true → s.outstanding.1 = [] ∧ s.snapshot.1.outstandingReads = 0 ∧
    s.snapshot.1.outstandingWrites = 0 ∧ s.snapshot.1.writeCurrent = false
  stays : wasClosed past = true → ∀ {t : Machine D}, Run s t → t.snapshot.1.closed = true

namespace Reckons

theorem outstanding (h : Reckons past s) (hc : wasClosed past = false) :
    s.outstanding.1 = s.occupying past .write ++ s.occupying past .read :=
  (h.tracks hc).outstanding

/-- Once admission is closed the record lists nobody. -/
theorem ended (h : Reckons past s) (hs : s.Valid) (hc : wasClosed past = true) :
    s.outstanding.1 = [] ∧ s.snapshot.1.outstandingReads = 0 ∧
      s.snapshot.1.outstandingWrites = 0 ∧ s.snapshot.1.writeCurrent = false := by
  obtain ⟨hr, hw, hcw⟩ := hs.recorded.closed (h.closed.trans hc)
  simp [Machine.outstanding, snapshot, Admission.outstanding, Admission.snapshot, Admission.prune,
    hr, hw, hcw]

end Reckons

/-- Nobody is a read and a write. -/
theorem nodup_occupying (s : Machine D) (past : List (Machine D × Act D)) :
    (s.occupying past .write ++ s.occupying past .read).Nodup := by
  refine List.nodup_append.mpr ⟨(nodup_admitted ..).filter _, (nodup_admitted ..).filter _, ?_⟩
  rintro i hw j hr rfl
  cases (mem_admitted.mp (List.mem_filter.mp hw).1).symm.trans
    (mem_admitted.mp (List.mem_filter.mp hr).1)

/-- As long as fewer than 2⁶⁴ requests were submitted, the record tells of every history what it
was. -/
theorem record_of_history (h : History permits past s)
    (hlt : (submissions past).length < UInt64.size) : Accounts past s := by
  have hr := h.reckons
  have hs : s.Valid := h.reachable.valid
  -- None of the counters has wrapped.
  have hsum := admissions_add_refusals (submissions past)
  have counted {c : UInt64} {n : Nat} (hc : c = .ofNat n) (hn : n ≤ (submissions past).length) :
      c.toNat = n := by
    rw [hc, UInt64.toNat_ofNat_of_lt' (by omega)]
  have hreads : s.snapshot.1.admittedReads.toNat = (admitted .read (submissions past)).length :=
    counted hr.counts.admittedReads (by unfold admissions at hsum; omega)
  have hwrites : s.snapshot.1.admittedWrites.toNat = (admitted .write (submissions past)).length :=
    counted hr.counts.admittedWrites (by unfold admissions at hsum; omega)
  constructor
  case entries => exact hr.entries
  case admittedReads => exact hreads
  case admittedWrites => exact hwrites
  case rejected => exact counted hr.counts.rejected (by omega)
  case superseded =>
    refine counted hr.counts.superseded (Nat.le_trans List.countP_le_length ?_)
    unfold admissions at hsum
    omega
  case numbers =>
    have hmap := congrArg (List.map UInt64.toNat) hr.numbers
    rw [List.map_map, List.map_map] at hmap
    rw [hreads, hwrites, ← admissions]
    refine hmap.trans ((List.map_congr_left fun n hn => ?_).trans (List.map_id _))
    have := List.mem_range'_1.mp hn
    exact UInt64.toNat_ofNat_of_lt' (by omega)
  case closed => exact hr.closed
  case outstanding => exact hr.outstanding
  case nodup =>
    cases hc : wasClosed past with
    | false => exact hr.outstanding hc ▸ nodup_occupying s past
    | true => exact (hr.ended hs hc).1 ▸ List.nodup_nil
  case outstandingReads => exact fun hc => congrArg List.length (hr.tracks hc).reads
  case outstandingWrites => exact fun hc => congrArg List.length (hr.tracks hc).writes
  case writeCurrent => exact fun hc => (hr.tracks hc).writeCurrent
  case ended => exact hr.ended hs
  case stays => exact fun hc _ hrun => Run.closed hrun hs (hr.closed.trans hc)

/-- A write that parked, a write that superseded it and has vacated, and a read that came then. -/
def succeeded : Machine Unit :=
  (start none).play 17 [.submit .write { mode := .hold }, .poll 0, .advance 0, .submit .write {},
    .submit .read {}, .poll 1, .advance 1, .poll 1]

theorem record_of_history_succeeded : ∃ past, History none past succeeded ∧
    submissions past = [⟨.write, true⟩, ⟨.write, true⟩, ⟨.read, true⟩] ∧
    (submissions past).length < UInt64.size ∧ wasClosed past = false ∧
    (admitted .write (submissions past)).countP (outrun · past) = 1 ∧
    succeeded.occupying past .write ++ succeeded.occupying past .read = [0, 2] ∧
    (∃ w, (admitted .write (submissions past)).getLast? = some w ∧ succeeded.vacated w = true) := by
  have hreach : Reachable none succeeded := run_play 17 _ _
  obtain ⟨past, hpast⟩ := History.exists_of_reachable hreach
  have hsubs : submissions past = [⟨.write, true⟩, ⟨.write, true⟩, ⟨.read, true⟩] :=
    hpast.reckons.entries.symm.trans rfl
  have hlt : (submissions past).length < UInt64.size := by
    rw [hsubs]
    decide
  have haccounts := record_of_history hpast hlt
  have hopen : wasClosed past = false := haccounts.closed.symm.trans rfl
  exact ⟨past, hpast, hsubs, hlt, hopen, haccounts.superseded.symm.trans rfl,
    (haccounts.outstanding hopen).symm.trans rfl, 1, by rw [hsubs]; rfl, rfl⟩

end Machine

end RequestScheduler
