import RequestScheduler.Proofs.Soundness

/-!
# What the record knows

The admission record is pruned now and then, so what it lists is not what is outstanding. It lists
what is outstanding, in any case, and nothing that was not admitted (`Recorded`).
-/

namespace RequestScheduler

namespace Machine

variable {D : Type} {s t : Machine D} {i d v w x : Nat} {e : Entry D} {kind : Kind}

/-- The request was admitted as one of this kind. Requests are named in the order of their
submission. -/
def Accepted (s : Machine D) (kind : Kind) (i : Nat) : Prop :=
  s.At i fun e => e.kind = kind ∧ e.stage ≠ .refused

/-- Among the writes admitted before `x`, the last one. -/
structure LastWriteBefore (s : Machine D) (x w : Nat) : Prop where
  write : s.Accepted .write w
  before : w < x
  last : ∀ {v : Nat}, w < v → v < x → ¬s.Accepted .write v

/-- A write is to wait for every read before it, and a read for the last write before it. -/
def Awaits (s : Machine D) (x d : Nat) : Prop :=
  s.Accepted .write x ∧ s.Accepted .read d ∧ d < x ∨ s.Accepted .read x ∧ s.LastWriteBefore x d

theorem Accepted.lt (h : s.Accepted kind i) : i < s.entries.length := by
  obtain ⟨e, he, _⟩ := h
  exact (List.getElem?_eq_some_iff.mp he).1

theorem Accepted.kind_unique {k : Kind} (h : s.Accepted kind i) (hk : s.Accepted k i) :
    kind = k := by
  obtain ⟨e, he, h, _⟩ := h
  exact h.symm.trans (hk.of_entry he).1

theorem Awaits.accepted_left (h : s.Awaits x d) : ∃ kind, s.Accepted kind x := by
  obtain ⟨h, _⟩ | ⟨h, _⟩ := h
  · exact ⟨_, h⟩
  · exact ⟨_, h⟩

/-- There is a last write if there is any. -/
theorem exists_lastWriteBefore (hv : s.Accepted .write v) (hx : v < x) :
    ∃ w, s.LastWriteBefore x w ∧ v ≤ w := by
  induction h : x - v using Nat.strongRecOn generalizing v with
  | _ n ih =>
      by_cases hl : ∃ u, v < u ∧ u < x ∧ s.Accepted .write u
      · obtain ⟨u, hvu, hux, hu⟩ := hl
        obtain ⟨w, hw, huw⟩ := ih (x - u) (by omega) hu hux rfl
        exact ⟨w, hw, by omega⟩
      · exact ⟨v, ⟨hv, hx, fun hvu hux hu => hl ⟨_, hvu, hux, hu⟩⟩, Nat.le_refl v⟩

theorem LastWriteBefore.unique {v w : Nat} (hv : s.LastWriteBefore x v)
    (hw : s.LastWriteBefore x w) : v = w :=
  Nat.le_antisymm (Nat.le_of_not_lt fun h => hw.last h hv.before hv.write)
    (Nat.le_of_not_lt fun h => hv.last h hw.before hw.write)

/-- Every request is there still, admitted as it was, and a slot that has vacated stays so. -/
structure Retains (s t : Machine D) : Prop where
  entry : ∀ {i : Nat} {e : Entry D}, s.entries[i]? = some e → ∃ f, t.entries[i]? = some f ∧
    f.kind = e.kind ∧ (f.stage = .refused ↔ e.stage = .refused) ∧
      (e.isVacated = true → f.isVacated = true)

theorem Grows.retains (h : s.Grows t) : s.Retains t where
  entry he := by
    obtain ⟨f, hf, hef⟩ := h.entry he
    exact ⟨f, hf, hef.kind, hef.refused, hef.isVacated⟩

namespace Retains

variable (h : s.Retains t)

include h

theorem accepted (ha : s.Accepted kind i) : t.Accepted kind i := by
  obtain ⟨e, he, hk, hr⟩ := ha
  obtain ⟨f, hf, hkind, hrefused, _⟩ := h.entry he
  exact ⟨f, hf, hkind.trans hk, mt hrefused.mp hr⟩

/-- Who was admitted stays so, and nobody is admitted later than submitted. -/
theorem accepted_iff (hi : i < s.entries.length) : t.Accepted kind i ↔ s.Accepted kind i := by
  refine ⟨fun ha => ?_, h.accepted⟩
  obtain ⟨f, hf, hkind, hrefused, _⟩ := h.entry (List.getElem?_eq_getElem hi)
  obtain ⟨hk, hr⟩ := ha.of_entry hf
  exact ⟨_, List.getElem?_eq_getElem hi, hkind.symm.trans hk, mt hrefused.mpr hr⟩

theorem lastWriteBefore_iff (hx : x ≤ s.entries.length) :
    t.LastWriteBefore x w ↔ s.LastWriteBefore x w := by
  constructor
  · intro hl
    have hw := hl.before
    exact ⟨(h.accepted_iff (by omega)).mp hl.write, hw,
      fun hv hvx => mt (h.accepted_iff (by omega)).mpr (hl.last hv hvx)⟩
  · intro hl
    exact ⟨h.accepted hl.write, hl.before,
      fun hv hvx => mt (h.accepted_iff (by omega)).mp (hl.last hv hvx)⟩

theorem vacated (hv : s.vacated i = true) : t.vacated i = true := by
  obtain ⟨e, he, hv⟩ := vacated_eq_true_iff.mp hv
  obtain ⟨f, hf, _, _, hvacated⟩ := h.entry he
  exact vacated_eq_true_iff.mpr ⟨f, hf, hvacated hv⟩

theorem vacated_of (hv : t.vacated i = false) : s.vacated i = false := by
  rw [← Bool.not_eq_true] at hv ⊢
  exact mt h.vacated hv

end Retains

section Growth

variable (hg : s.Grows t)

include hg

theorem Accepted.grow (h : s.Accepted kind i) : t.Accepted kind i := hg.retains.accepted h

theorem accepted_iff (hi : i < s.entries.length) : t.Accepted kind i ↔ s.Accepted kind i :=
  hg.retains.accepted_iff hi

theorem lastWriteBefore_iff (hx : x ≤ s.entries.length) :
    t.LastWriteBefore x w ↔ s.LastWriteBefore x w :=
  hg.retains.lastWriteBefore_iff hx

theorem awaits_iff (hx : x < s.entries.length) : t.Awaits x d ↔ s.Awaits x d := by
  unfold Awaits
  rw [accepted_iff hg hx, accepted_iff hg hx, lastWriteBefore_iff hg (by omega)]
  refine or_congr_left (and_congr_right fun _ => ?_)
  constructor
  · rintro ⟨h, hd⟩
    exact ⟨(accepted_iff hg (by omega)).mp h, hd⟩
  · rintro ⟨h, hd⟩
    exact ⟨h.grow hg, hd⟩

/-- Awaiting is settled by admission, so it does not change unless a request is submitted. -/
theorem awaits_congr (hl : t.entries.length = s.entries.length) : t.Awaits x d ↔ s.Awaits x d := by
  by_cases hx : x < s.entries.length
  · exact awaits_iff hg hx
  · refine iff_of_false ?_ ?_
    all_goals
      intro h
      obtain ⟨k, hk⟩ := h.accepted_left
      have := hk.lt
      omega

theorem vacated_grow (h : s.vacated i = true) : t.vacated i = true := hg.retains.vacated h

theorem vacated_of_grow (h : t.vacated i = false) : s.vacated i = false := hg.retains.vacated_of h

end Growth

/-- The record lists requests of the right kind, and every one that has not vacated; once it is
closed it lists nothing. -/
structure Recorded (s : Machine D) : Prop where
  closed : s.admission.closed = true →
    s.admission.reads = [] ∧ s.admission.writes = [] ∧ s.admission.currentWrite = none
  read : ∀ {i : Nat}, i ∈ s.admission.reads → s.Accepted .read i
  write : ∀ {i : Nat}, i ∈ s.admission.writes → s.Accepted .write i
  current : ∀ {w : Nat}, s.admission.currentWrite = some w → s.LastWriteBefore s.entries.length w
  mem_reads : s.admission.closed = false →
    ∀ {i : Nat}, s.Accepted .read i → s.vacated i = false → i ∈ s.admission.reads
  mem_writes : s.admission.closed = false →
    ∀ {i : Nat}, s.Accepted .write i → s.vacated i = false → i ∈ s.admission.writes
  current_eq : s.admission.closed = false → ∀ {w : Nat},
    s.LastWriteBefore s.entries.length w → s.vacated w = false →
      s.admission.currentWrite = some w

theorem Recorded.retain (h : s.Recorded) (hg : s.Retains t)
    (hl : t.entries.length = s.entries.length) (ha : t.admission = s.admission) :
    t.Recorded where
  closed := ha ▸ h.closed
  read hi := hg.accepted (h.read (ha ▸ hi))
  write hi := hg.accepted (h.write (ha ▸ hi))
  current hw := by
    rw [hl, hg.lastWriteBefore_iff (Nat.le_refl _)]
    exact h.current (ha ▸ hw)
  mem_reads hc _ hi hv := by
    rw [hg.accepted_iff (hl ▸ hi.lt)] at hi
    exact ha ▸ h.mem_reads (ha ▸ hc) hi (hg.vacated_of hv)
  mem_writes hc _ hi hv := by
    rw [hg.accepted_iff (hl ▸ hi.lt)] at hi
    exact ha ▸ h.mem_writes (ha ▸ hc) hi (hg.vacated_of hv)
  current_eq hc _ hw hv := by
    rw [hl, hg.lastWriteBefore_iff (Nat.le_refl _)] at hw
    exact ha ▸ h.current_eq (ha ▸ hc) hw (hg.vacated_of hv)

/-- The new request is the last one, and it is accepted as what it is. -/
theorem accepted_append {f : Entry D} (ht : t.entries = s.entries ++ [f])
    (hf : f.stage ≠ .refused) : t.Accepted kind s.entries.length ↔ f.kind = kind := by
  have hn : t.entries[s.entries.length]? = some f := by rw [ht, List.getElem?_concat_length]
  exact ⟨fun h => (h.of_entry hn).1, fun h => ⟨f, hn, h, hf⟩⟩

/-- Whoever is accepted after a submission was so before, or is new. -/
theorem Retains.accepted_cases {f : Entry D} (hg : s.Retains t)
    (ht : t.entries = s.entries ++ [f]) (h : t.Accepted kind i) :
    s.Accepted kind i ∨ i = s.entries.length := by
  have hi := h.lt
  rw [ht, List.length_append, List.length_singleton] at hi
  by_cases hn : i = s.entries.length
  · exact .inr hn
  · exact .inl ((hg.accepted_iff (by omega)).mp h)

theorem accepted_cases {f : Entry D} (hg : s.Grows t) (ht : t.entries = s.entries ++ [f])
    (h : t.Accepted kind i) : s.Accepted kind i ∨ i = s.entries.length :=
  hg.retains.accepted_cases ht h

/-- A request that is no write comes after the last write. -/
theorem Retains.lastWriteBefore_succ {f : Entry D} (hg : s.Retains t)
    (ht : t.entries = s.entries ++ [f]) (hf : f.kind ≠ .write ∨ f.stage = .refused) :
    t.LastWriteBefore t.entries.length w ↔ s.LastWriteBefore s.entries.length w := by
  have hn : ¬t.Accepted .write s.entries.length := by
    intro h
    obtain ⟨hk, hr⟩ := h.of_entry (e := f) (by rw [ht, List.getElem?_concat_length])
    obtain hf | hf := hf
    · exact hf hk
    · exact hr hf
  have hl : t.entries.length = s.entries.length + 1 := by simp [ht]
  rw [hl]
  constructor
  · intro h
    have hw : w ≠ s.entries.length := fun hw => hn (hw ▸ h.write)
    have := h.before
    exact ⟨(hg.accepted_iff (by omega)).mp h.write, by omega,
      fun hv hvx => mt (hg.accepted_iff hvx).mpr (h.last hv (by omega))⟩
  · intro h
    have := h.before
    refine ⟨hg.accepted h.write, by omega, fun {v} hv hvx ha => ?_⟩
    by_cases hvn : v = s.entries.length
    · exact hn (hvn ▸ ha)
    · exact h.last hv (by omega) ((hg.accepted_iff (by omega)).mp ha)

/-- The record forgets who has vacated. -/
theorem Recorded.prune (h : s.Recorded) (hg : s.Retains t)
    (hl : t.entries.length = s.entries.length) (ht : t.vacated = s.vacated)
    (ha : t.admission = s.admission.prune s.vacated) : t.Recorded where
  closed hc := by
    rw [ha] at hc ⊢
    obtain ⟨h₁, h₂, h₃⟩ := h.closed hc
    simp [Admission.prune, h₁, h₂, h₃]
  read hi := by
    rw [ha] at hi
    exact hg.accepted (h.read (List.mem_filter.mp hi).1)
  write hi := by
    rw [ha] at hi
    exact hg.accepted (h.write (List.mem_filter.mp hi).1)
  current hw := by
    rw [ha] at hw
    rw [hl, hg.lastWriteBefore_iff (Nat.le_refl _)]
    exact h.current (Option.filter_eq_some_iff.mp hw).1
  mem_reads hc _ hi hv := by
    rw [ha] at hc ⊢
    rw [hg.accepted_iff (hl ▸ hi.lt)] at hi
    rw [ht] at hv
    exact List.mem_filter.mpr ⟨h.mem_reads hc hi hv, by simp [hv]⟩
  mem_writes hc _ hi hv := by
    rw [ha] at hc ⊢
    rw [hg.accepted_iff (hl ▸ hi.lt)] at hi
    rw [ht] at hv
    exact List.mem_filter.mpr ⟨h.mem_writes hc hi hv, by simp [hv]⟩
  current_eq hc _ hw hv := by
    rw [ha] at hc ⊢
    rw [hl, hg.lastWriteBefore_iff (Nat.le_refl _)] at hw
    rw [ht] at hv
    exact Option.filter_eq_some_iff.mpr ⟨h.current_eq hc hw hv, by simp [hv]⟩

/-- A closed record lists nobody. -/
theorem recorded_of_closed (hc : s.admission.closed = true) (hr : s.admission.reads = [])
    (hw : s.admission.writes = []) (hcw : s.admission.currentWrite = none) : s.Recorded := by
  constructor <;> simp [hc, hr, hw, hcw]

/-- A read is recorded. -/
theorem Recorded.admitRead {f : Entry D} (h : s.Recorded) (hg : s.Retains t)
    (ht : t.entries = s.entries ++ [f]) (hf : f.kind = .read) (hq : f.stage ≠ .refused)
    (hc : s.admission.closed = false) (htc : t.admission.closed = false)
    (hr : t.admission.reads = s.admission.reads ++ [s.entries.length])
    (hw : t.admission.writes = s.admission.writes)
    (hcw : t.admission.currentWrite = s.admission.currentWrite) : t.Recorded where
  closed h := by simp [htc] at h
  read hi := by
    rw [hr, List.mem_append, List.mem_singleton] at hi
    obtain hi | rfl := hi
    · exact hg.accepted (h.read hi)
    · exact (accepted_append ht hq).mpr hf
  write hi := hg.accepted (h.write (hw ▸ hi))
  current hx := (hg.lastWriteBefore_succ ht (.inl (by simp [hf]))).mpr (h.current (hcw ▸ hx))
  mem_reads _ _ hi hv := by
    rw [hr, List.mem_append, List.mem_singleton]
    apply (hg.accepted_cases ht hi).imp_left
    intro hi
    exact h.mem_reads hc hi (hg.vacated_of hv)
  mem_writes _ _ hi hv := by
    rw [hw]
    refine h.mem_writes hc ((hg.accepted_cases ht hi).resolve_right ?_) (hg.vacated_of hv)
    rintro rfl
    simp [(accepted_append ht hq).mp hi] at hf
  current_eq _ _ hx hv := by
    rw [hcw]
    exact h.current_eq hc ((hg.lastWriteBefore_succ ht (.inl (by simp [hf]))).mp hx)
      (hg.vacated_of hv)

/-- A write is recorded, and becomes the current one. -/
theorem Recorded.admitWrite {f : Entry D} (h : s.Recorded) (hg : s.Retains t)
    (ht : t.entries = s.entries ++ [f]) (hf : f.kind = .write) (hq : f.stage ≠ .refused)
    (hc : s.admission.closed = false) (htc : t.admission.closed = false)
    (hr : t.admission.reads = s.admission.reads)
    (hw : t.admission.writes = s.admission.writes ++ [s.entries.length])
    (hcw : t.admission.currentWrite = some s.entries.length) : t.Recorded := by
  have hn : t.Accepted .write s.entries.length := (accepted_append ht hq).mpr hf
  have hl : t.entries.length = s.entries.length + 1 := by simp [ht]
  exact {
    closed := fun h => by simp [htc] at h
    read := fun hi => hg.accepted (h.read (hr ▸ hi))
    write := by
      intro i hi
      rw [hw, List.mem_append, List.mem_singleton] at hi
      obtain hi | rfl := hi
      · exact hg.accepted (h.write hi)
      · exact hn
    current := by
      intro x hx
      obtain rfl := Option.some.inj (hcw.symm.trans hx)
      exact ⟨hn, by omega, fun hv hvx => by omega⟩
    mem_reads := by
      intro _ _ hi hv
      rw [hr]
      refine h.mem_reads hc ((hg.accepted_cases ht hi).resolve_right ?_) (hg.vacated_of hv)
      rintro rfl
      cases hi.kind_unique hn
    mem_writes := by
      intro _ _ hi hv
      rw [hw, List.mem_append, List.mem_singleton]
      apply (hg.accepted_cases ht hi).imp_left
      intro hi
      exact h.mem_writes hc hi (hg.vacated_of hv)
    current_eq := by
      intro _ _ hx _
      have := hx.before
      have : ¬_ < s.entries.length := fun hlt => hx.last hlt (by omega) hn
      rw [hcw, Option.some.injEq]
      omega }

/-- The rules keep the record. -/
theorem Rule.recorded (h : Rule s t) (hs : s.Sound) (hr : s.Recorded) : t.Recorded := by
  have hg : s.Retains t := (h.grows hs.isCoherent).retains
  cases h with
  | touch h => exact hr.retain hg h.length h.admission
  | prune => exact hr.prune hg rfl rfl rfl
  | close => exact recorded_of_closed rfl rfl rfl rfl
  | refuse kind _ _ _ hc =>
      obtain ⟨h₁, h₂, h₃⟩ := hr.closed hc
      exact recorded_of_closed hc h₁ h₂ h₃
  | read _ _ _ _ _ _ hc hac har haw hacw =>
      exact hr.admitRead hg rfl rfl (by simp [Entry.queued]) hc hac har haw hacw
  | write _ _ _ _ _ _ hc hac har haw hacw =>
      exact hr.admitWrite hg rfl rfl (by simp [Entry.queued]) hc hac har haw hacw
  | _ => exact hr.retain hg (by simp) rfl

/-- What the record knows holds from the start. -/
theorem recorded_start (permits : Option Permits) : (start permits : Machine D).Recorded := by
  have none {kind : Kind} {i : Nat} : ¬(start permits : Machine D).Accepted kind i := by
    intro h
    simpa [start] using h.lt
  constructor
  case mem_reads => exact fun _ _ h => absurd h none
  case mem_writes => exact fun _ _ h => absurd h none
  case current_eq => exact fun _ _ h => absurd h.write none
  all_goals simp [start]

end Machine

end RequestScheduler
