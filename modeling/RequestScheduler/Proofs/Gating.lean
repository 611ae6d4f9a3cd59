import RequestScheduler.Proofs.Release

/-!
# The rules keep gates going

A request that is submitted is launched by the work that its admission leaves, and comes to wait for
those that the record lists (`Gated.admit`). The other rules were dealt with apart, and `Rule.gated`
puts all of them together.
-/

namespace RequestScheduler

namespace Machine

variable {D : Type} {s t : Machine D} {i d x g : Nat} {e f : Entry D} {w : Work D}
  {l r : List (Work D)}

/-- Nothing launches a request that is not there yet. -/
theorem Gated.launches_length (h : s.Gated) : s.launches s.entries.length = 0 := by
  rw [launches, List.count_eq_zero.mpr, List.countP_eq_zero.mpr]
  · intro gate hgate
    have := h.gate_lt hgate
    simp
    omega
  · intro hx
    obtain ⟨w, hw, hwx⟩ := List.mem_filterMap.mp hx
    have := h.launch_lt hw hwx
    omega

/-- Work that launches one request adds to its launches alone. -/
theorem launches_append (hgates : t.gates = s.gates) (hd : t.duties = l ++ s.duties)
    (hone : l.length ≤ 1) (hl : ∀ w ∈ l, w.launches? = some i) (x : Nat) :
    t.launches x = (if i = x then l.length else 0) + s.launches x := by
  have hlaunches : l.filterMap Work.launches? = List.replicate l.length i := by
    obtain _ | ⟨w, _ | ⟨v, l⟩⟩ := l
    · rfl
    · simp [hl w List.mem_cons_self]
    · simp at hone
  rw [launches, launches, hd, hgates, List.filterMap_append, hlaunches, List.count_append,
    List.count_replicate]
  by_cases hx : i = x
  · simp [hx]
    omega
  · simp [hx]

/-- A new slot that nothing waits for changes no pledge. -/
theorem pledged_append {k d : Nat} (hd : t.duties = l ++ s.duties)
    (hm : t.moorings = s.moorings ++ [[]]) (hl : .await k d ∉ l) :
    t.Pledged k d ↔ s.Pledged k d := by
  constructor
  · rintro (hk | ⟨m, hmd, hkm⟩)
    · rw [hd] at hk
      exact .inl ((List.mem_append.mp hk).resolve_left hl)
    · obtain ⟨_, rfl⟩ | hmd := getElem?_concat_cases (hm ▸ hmd)
      · cases hkm
      · exact .inr ⟨m, hmd, hkm⟩
  · rintro (hk | ⟨m, hmd, hkm⟩)
    · exact .inl (hd ▸ List.mem_append_right _ hk)
    · exact .inr ⟨m, hm ▸ getElem?_append_of_some hmd, hkm⟩

/-- A request is submitted: `l` launches it, or it was refused. -/
theorem Gated.admit (h : s.Gated) (hg : s.Grows t) (ht : t.entries = s.entries ++ [f])
    (hgates : t.gates = s.gates) (hd : t.duties = l ++ s.duties) (hfm : f.moorings = [])
    (hft : f.task = .unspawned) (hfq : f.stage = .queued → l ≠ []) (hone : l.length ≤ 1)
    (hl : ∀ w ∈ l, w.launches? = some s.entries.length ∧ w.gate? = none)
    (hchain : ∀ {ds d}, .chain s.entries.length ds ∈ l → d ∈ ds → t.Awaits s.entries.length d)
    (hheld : ∀ {d}, t.Awaits s.entries.length d → t.vacated d = false →
      ∃ ds, .chain s.entries.length ds ∈ l ∧ d ∈ ds) : t.Gated := by
  have hlen : t.entries.length = s.entries.length + 1 := by simp [ht]
  have hm : t.moorings = s.moorings ++ [[]] := by
    rw [moorings, ht, List.map_append, ← hfm]
    rfl
  have sub {v : Work D} (hv : v ∈ t.duties) : v ∈ l ∨ v ∈ s.duties := by
    rwa [hd, List.mem_append] at hv
  have keep {v : Work D} (hv : v ∈ s.duties) : v ∈ t.duties := hd ▸ List.mem_append_right _ hv
  have hp {k d : Nat} : t.Pledged k d ↔ s.Pledged k d :=
    pledged_append hd hm fun hk => by cases (hl _ hk).1
  -- An entry is the new one or an old one.
  have cases {j : Nat} {a : Entry D} (ha : t.entries[j]? = some a) :
      j = s.entries.length ∧ a = f ∨ s.entries[j]? = some a :=
    getElem?_concat_cases (ht ▸ ha)
  have haw {x d : Nat} (ha : t.Awaits x d) : x = s.entries.length ∨ s.Awaits x d := by
    by_cases hx : x < s.entries.length
    · exact .inr ((awaits_iff hg hx).mp ha)
    · obtain ⟨k, hk⟩ := ha.accepted_left
      have := hk.lt
      exact .inl (by omega)
  have grow {x d : Nat} (ha : s.Awaits x d) : t.Awaits x d := by
    obtain ⟨k, hk⟩ := ha.accepted_left
    exact (awaits_iff hg hk.lt).mpr ha
  have hlaunch := launches_append hgates hd hone fun w hw => (hl w hw).1
  have hnone := h.launches_length
  exact {
    pledged := by
      intro k
      have hk := h.pledged k
      have hn : l.filterMap Work.gate? = [] :=
        List.filterMap_eq_nil_iff.mpr fun w hw => (hl w hw).2
      rw [pledges, remaining, hd, hgates, hm, List.filterMap_append, hn, List.nil_append]
      simpa [pledges, remaining] using hk
    once := by
      intro x
      rw [hlaunch]
      by_cases hx : s.entries.length = x
      · subst hx
        simp only [↓reduceIte, hnone]
        omega
      · simpa [hx] using h.once x
    queued := by
      rintro x ⟨a, ha, hq⟩
      rw [hlaunch]
      obtain ⟨rfl, rfl⟩ | ha := cases ha
      · have := List.length_pos_iff.mpr (hfq hq)
        simp only [↓reduceIte]
        omega
      · have := h.queued ⟨a, ha, hq⟩
        omega
    awaiting := by
      intro g d hpt
      obtain ⟨gate, hgate, ha⟩ := h.awaiting (hp.mp hpt)
      exact ⟨gate, hgates ▸ hgate, grow ha⟩
    chained := by
      intro x d ds hc hds
      obtain hc | hc := sub hc
      · obtain rfl := Option.some.inj (hl _ hc).1
        exact hchain hc hds
      · exact grow (h.chained hc hds)
    held := by
      intro x d ha hv
      obtain rfl | has := haw ha
      · obtain ⟨ds, hc, hds⟩ := hheld ha hv
        exact .inl ⟨ds, hd ▸ List.mem_append_left _ hc, hds⟩
      · obtain ⟨ds, hc, hds⟩ | ⟨g, gate, hgate, hx, hps⟩ := h.held has (vacated_of_grow hg hv)
        · exact .inl ⟨ds, keep hc, hds⟩
        · exact .inr ⟨g, gate, hgates ▸ hgate, hx, hp.mpr hps⟩
    clear := by
      rintro x d ⟨a, ha, hs⟩ hxd
      obtain ⟨rfl, rfl⟩ | ha := cases ha
      · exact absurd hft hs
      · have := (List.getElem?_eq_some_iff.mp ha).1
        exact vacated_grow hg (h.clear ⟨a, ha, hs⟩ ((haw hxd).resolve_left (by omega)))
    gate_lt := by
      intro b hm
      have := h.gate_lt (hgates ▸ hm)
      omega
    launch_lt := by
      intro v x hm hw
      obtain hm | hm := sub hm
      · obtain rfl := Option.some.inj (hw.symm.trans (hl _ hm).1)
        omega
      · have := h.launch_lt hm hw
        omega }

/-- A read waits for the write that is current, which is the last before it. -/
theorem Gated.admitRead {seq : UInt64} {body : Body D} (h : s.Gated) (hr : s.Recorded)
    (hg : s.Grows t) (ht : t.entries = s.entries ++ [.queued .read seq (.callback body)])
    (hgates : t.gates = s.gates) (hc : s.admission.closed = false)
    (hd : t.duties = (match s.admission.currentWrite with
      | none => .dispatch s.entries.length
      | some write => .chain s.entries.length [write]) :: s.duties) : t.Gated := by
  have hn : t.Accepted .read s.entries.length :=
    (accepted_append ht (by simp [Entry.queued])).mpr rfl
  have hcurrent {d : Nat} (ha : t.Awaits s.entries.length d) (hv : t.vacated d = false) :
      s.admission.currentWrite = some d := by
    obtain ⟨hw, _⟩ | ⟨_, hl⟩ := ha
    · cases hw.kind_unique hn
    · exact hr.current_eq hc ((lastWriteBefore_iff hg (Nat.le_refl _)).mp hl)
        (vacated_of_grow hg hv)
  cases hcw : s.admission.currentWrite with
  | none =>
      rw [hcw] at hd
      refine h.admit (l := [_]) hg ht hgates hd rfl rfl (by simp) (Nat.le_refl _)
        (by simp [Work.launches?, Work.gate?]) (by simp) fun ha hv => ?_
      rw [hcurrent ha hv] at hcw
      cases hcw
  | some w =>
      rw [hcw] at hd
      refine h.admit (l := [_]) hg ht hgates hd rfl rfl (by simp) (Nat.le_refl _)
        (by simp [Work.launches?, Work.gate?]) (fun hch hds => ?_) fun ha hv => ?_
      · cases List.mem_singleton.mp hch
        obtain rfl := List.mem_singleton.mp hds
        exact .inr ⟨hn, (lastWriteBefore_iff hg (Nat.le_refl _)).mpr (hr.current hcw)⟩
      · obtain rfl := Option.some.inj (hcw.symm.trans (hcurrent ha hv))
        exact ⟨_, List.mem_singleton.mpr rfl, List.mem_singleton.mpr rfl⟩

/-- A write waits for the reads that are outstanding. -/
theorem Gated.admitWrite {seq : UInt64} {body : Body D} (h : s.Gated) (hr : s.Recorded)
    (hg : s.Grows t) (ht : t.entries = s.entries ++ [.queued .write seq (.callback body)])
    (hgates : t.gates = s.gates) (hc : s.admission.closed = false)
    (hd : t.duties = .chain s.entries.length s.admission.reads :: s.duties) : t.Gated := by
  have hn : t.Accepted .write s.entries.length :=
    (accepted_append ht (by simp [Entry.queued])).mpr rfl
  refine h.admit (l := [_]) hg ht hgates hd rfl rfl (by simp) (Nat.le_refl _)
    (by simp [Work.launches?, Work.gate?]) (fun hch hds => ?_) fun {d} ha hv => ?_
  · cases List.mem_singleton.mp hch
    have hread := hr.read hds
    exact .inl ⟨hn, hread.grow hg, hread.lt⟩
  · obtain ⟨_, hread, hlt⟩ | ⟨hread, _⟩ := ha
    · refine ⟨_, List.mem_singleton.mpr rfl, hr.mem_reads hc ((accepted_iff hg hlt).mp hread) ?_⟩
      exact vacated_of_grow hg hv
    · cases hread.kind_unique hn

theorem duties_cons (h : s.work = w :: r) (hw : w.isDuty = true) :
    s.duties = w :: r.filter Work.isDuty := by
  rw [duties, h, List.filter_cons_of_pos hw]

theorem vacated_set (he : s.entries[i]? = some e) (ht : t.entries = s.entries.set i f)
    (hf : f.isVacated = e.isVacated) (j : Nat) : t.vacated j = s.vacated j := by
  unfold vacated
  rw [ht]
  by_cases hij : i = j
  · subst hij
    rw [getElem?_set_of_some he, he]
    exact hf
  · rw [List.getElem?_set_ne hij]

/-- The releases that a vacancy leaves behind. -/
theorem filterMap_run {l notes : List (Work D)} {ks : List (Continuation D)}
    (hl : l = (ks.map Work.run ++ notes).filter Work.isDuty) (hn : ∀ w ∈ notes, w.isIdle) :
    l.filterMap Work.gate? = ks.filterMap Continuation.gate? ∧ ∀ w ∈ l, ∃ k, w = .run k := by
  rw [List.filter_append, filter_isDuty_of_isIdle hn, List.append_nil] at hl
  subst hl
  constructor
  · induction ks with
    | nil => rfl
    | cons k ks ih =>
        cases hk : k.gate? <;>
          simp only [List.map_cons, List.filter_cons, List.filterMap_cons, Work.isDuty, Work.gate?,
            hk, Option.isSome_none, Option.isSome_some, ↓reduceIte, Bool.false_eq_true, ih]
  · intro w hw
    obtain ⟨k, _, rfl⟩ := List.mem_map.mp (List.mem_filter.mp hw).1
    exact ⟨k, rfl⟩

/-- A slot is set that is not queued any more: it was skipped, or its task was spawned. -/
theorem Gated.unqueue {items : List (Work D)} (h : s.Gated) (hg : s.Grows t)
    (he : s.entries[i]? = some e) (ht : t.entries = s.entries.set i f) (hgates : t.gates = s.gates)
    (hsw : s.work = w :: r) (htw : t.work = items ++ r) (hi : items.filter Work.isDuty = [])
    (hw : w.isDuty = false ∨ w = .dispatch i) (hm : f.moorings = e.moorings)
    (hv : f.isVacated = e.isVacated) (hq : f.stage ≠ .queued)
    (hf : f.task ≠ .unspawned → e.task ≠ .unspawned ∨ w = .dispatch i) : t.Gated := by
  have hmoor : t.moorings = s.moorings := by
    rw [moorings, ht]
    exact map_set_of_eq he hm
  refine h.leave (x := i) hg (by rw [ht, List.length_set]) hmoor hgates hsw htw hi hw ?_
    (vacated_set he ht hv) ?_
  · intro a ha
    obtain ⟨_, rfl⟩ | ⟨hne, _⟩ := getElem?_set_cases (ht ▸ ha)
    · exact hq
    · exact absurd rfl hne
  · rintro j ⟨a, ha, hs⟩
    obtain ⟨rfl, rfl⟩ | ⟨_, ha⟩ := getElem?_set_cases (ht ▸ ha)
    · exact (hf hs).imp (fun hs => ⟨e, he, hs⟩) fun hw => ⟨rfl, hw⟩
    · exact .inl ⟨a, ha, hs⟩

/-- Work that does nothing launches nobody and releases no gate. -/
theorem Gated.pass (h : s.Gated) (hg : s.Grows t) (hsw : s.work = w :: r) (hw : s.IsDone w)
    (hentries : t.entries = s.entries) (hgates : t.gates = s.gates) (htw : t.work = r) :
    t.Gated := by
  cases hduty : w.isDuty with
  | false =>
      apply h.frame hg (by rw [hentries]) hgates
      exact duties_congr (a := [w]) (b := []) hsw htw (by simp [hduty]) rfl
  | true =>
      cases w with
      | dispatch x =>
          have hvacated (j : Nat) : t.vacated j = s.vacated j := by rw [vacated, vacated, hentries]
          exact h.leave hg (by rw [hentries]) (by rw [moorings, moorings, hentries]) hgates hsw
            (htw.trans (List.nil_append r).symm) rfl (.inr rfl) (hentries ▸ hw) hvacated
            fun hs => .inl ((At.congr hentries).mp hs)
      | release g =>
          -- A gate that is not there is owed no release.
          have := h.pledged g
          rw [pledges, duties_cons hsw rfl, remaining, show s.gates[g]? = none from hw,
            List.filterMap_cons_some (f := Work.gate?) (b := g) rfl,
            List.count_cons_self] at this
          simp at this
      | chain | await | run => exact hw.elim
      | _ => cases hduty

/-- A request that is refused waits for nobody. -/
theorem Gated.refuse {kind : Kind} (h : s.Gated) (hg : s.Grows t)
    (ht : t.entries = s.entries ++ [.refused kind]) (hgates : t.gates = s.gates)
    (hd : t.duties = s.duties) : t.Gated := by
  have hrefused {d : Nat} (ha : t.Awaits s.entries.length d) : False := by
    obtain ⟨k, hk⟩ := ha.accepted_left
    exact (hk.of_entry (ht ▸ List.getElem?_concat_length)).2 rfl
  exact h.admit (l := []) hg ht hgates hd rfl rfl (by simp [Entry.refused]) (Nat.zero_le _)
    (List.forall_mem_nil _) (by simp) fun h => (hrefused h).elim

theorem filter_isDuty_map {α : Type} {p : α → Work D} (hp : ∀ a, (p a).isDuty = false)
    (l : List α) : (l.map p).filter Work.isDuty = [] := by
  apply List.filter_eq_nil_iff.mpr
  intro w hw
  obtain ⟨a, _, rfl⟩ := List.mem_map.mp hw
  simp [hp]

/-- What waits for a settlement are the continuations of clients, which are no work on gates. -/
theorem Sound.filter_reactions (hs : s.Sound) (he : s.entries[i]? = some e) :
    (e.request.cell.continuations.map Work.run).filter Work.isDuty = [] := by
  apply List.filter_eq_nil_iff.mpr
  intro w hw
  obtain ⟨k, hk, rfl⟩ := List.mem_map.mp hw
  obtain ⟨tag, effects, rfl⟩ := (hs.entry he).coherent.reactions k hk
  simp [Work.isDuty, Continuation.gate?]

/-- The rules keep gates going. -/
theorem Rule.gated (h : Rule s t) (hs : s.Sound) (hr : s.Recorded) (hd : s.Gated) : t.Gated := by
  have hg : s.Grows t := h.grows hs.isCoherent
  cases h with
  | touch h hsw htw ha hb =>
      exact hd.frame hg h.berths h.gates
        (duties_congr hsw htw (filter_isDuty_of_isIdle ha) (filter_isDuty_of_isIdle hb))
  | prune => exact hd.frame hg rfl rfl rfl
  | pass hsw hw => exact hd.pass hg hsw hw rfl rfl rfl
  | publish hsw he =>
      exact hd.frame hg (map_set_of_eq he rfl) rfl
        (duties_congr (a := [_]) hsw rfl rfl (hs.filter_reactions he))
  | flag he => exact hd.frame hg (map_set_of_eq he rfl) rfl rfl
  | cancel hsw he hc =>
      refine hd.frame hg (map_set_of_eq he rfl) rfl (duties_congr hsw rfl hc.duties.1 ?_)
      exact (List.filter_cons_of_neg (by simp [Work.isDuty])).trans hc.duties.2
  | collect hsw ha hb =>
      refine hd.frame hg rfl rfl (duties_congr hsw rfl (filter_isDuty_of_isIdle ha) ?_)
      exact (List.filter_cons_of_neg (by simp [Work.isDuty])).trans (filter_isDuty_of_isIdle hb)
  | close =>
      exact hd.frame hg rfl rfl
        (duties_congr (a := []) rfl rfl rfl (filter_isDuty_map (fun _ => rfl) _))
  | @skip x e w rest hsw hw he =>
      have hduty : w.isDuty = false ∨ w = .dispatch x := by
        obtain rfl | rfl := hw
        · exact .inl rfl
        · exact .inr rfl
      exact hd.unqueue hg he rfl rfl hsw (show _ = [Work.openVacancy x] ++ rest from rfl) rfl
        hduty rfl rfl (by simp) .inl
  | @vacate i e w notes rest hsw he hv hw hn =>
      have hduty : w.isDuty = false := by obtain ⟨rfl, _⟩ | ⟨rfl, _⟩ := hw <;> rfl
      obtain ⟨hl, hrun⟩ := filterMap_run rfl hn
      refine hd.vacate hg he rfl rfl (by simp [Entry.moorings]) (by simp [Entry.isVacated])
        (by simp) rfl ?_ hl hrun
      rw [duties_of_work (l := [w]) hsw, duties_of_work rfl]
      simp [hduty]
  | @spawn x e task items rest hsw he _ _ hl =>
      have hitems : items.filter Work.isDuty = [] := by
        obtain ⟨_, _, rfl⟩ | ⟨_, _, rfl⟩ := hl <;> rfl
      exact hd.unqueue hg he rfl rfl hsw rfl hitems (.inr rfl) rfl rfl (by simp) fun _ => .inr rfl
  | chain hsw =>
      apply hd.chain hg rfl rfl (duties_cons hsw rfl)
      rw [duties_of_work rfl, List.filter_cons_of_pos rfl, List.filter_eq_self.mpr]
      simp [Work.isDuty]
  | enrol hsw he hv =>
      refine hd.enrol hg he rfl rfl ?_ (by simp [Entry.isVacated]) rfl rfl (duties_cons hsw rfl)
      rw [Entry.moorings, Cell.continuations_register _ _ hv, List.filterMap_append]
      rfl
  | forward hsw hw =>
      refine hd.forward hg rfl rfl (duties_cons hsw ?_) (duties_cons rfl rfl) hw
      obtain ⟨d, rfl, _⟩ | rfl := hw <;> rfl
  | @count g gate rest hsw hgate =>
      apply hd.count hg rfl hgate rfl (duties_cons hsw rfl)
      unfold duties
      split <;> rfl
  | endTask hsw he ht =>
      apply hd.frame hg (map_set_of_eq he (Entry.Touch.berth (.endTask ht))) rfl
      exact duties_congr (a := [_]) (b := [_, _]) hsw rfl rfl rfl
  | hear => exact hd.frame hg rfl rfl rfl
  | begin _ he => exact hd.frame hg (map_set_of_eq he rfl) rfl rfl
  | lead hsw _ _ hi hw =>
      apply hd.frame hg rfl rfl
      apply duties_congr (a := []) (r := []) hsw (List.append_nil _).symm rfl
      rw [List.filter_append, filter_isDuty_of_isIdle hi]
      simp [isDuty_of_ends? hw]
  | yield hsw hw he _ hy =>
      apply hd.frame hg (map_set_of_eq he (by cases hy <;> rfl)) rfl
      exact duties_congr (a := [_]) (b := []) hsw rfl (by simp [isDuty_of_ends? hw]) rfl
  | refuse _ hsw hdone hafter =>
      apply hd.refuse hg rfl rfl
      apply duties_congr hsw rfl (filter_isDuty_of_isIdle hdone)
      exact (List.filter_cons_of_neg (by simp [Work.isDuty])).trans (filter_isDuty_of_isIdle hafter)
  | @read seq body a done after rest hsw hdone hafter hc =>
      apply hd.admitRead hr hg rfl rfl hc
      rw [duties_of_work hsw, filter_isDuty_of_isIdle hdone, duties_of_work rfl,
        List.filter_cons_of_pos (by split <;> rfl), filter_isDuty_of_isIdle hafter]
      rfl
  | @write seq body a done after rest hsw hdone hafter hc =>
      apply hd.admitWrite hr hg rfl rfl hc
      rw [duties_of_work hsw, filter_isDuty_of_isIdle hdone, duties_of_work rfl,
        List.filter_append, filter_isDuty_map fun _ => rfl, List.nil_append,
        List.filter_cons_of_pos rfl,
        filter_isDuty_of_isIdle hafter]
      rfl
  | lose hsw =>
      apply hd.frame hg rfl rfl
      exact duties_congr (a := []) (r := []) hsw (List.append_nil _).symm rfl
        (filter_isDuty_map (fun _ => rfl) _)

/-- Nobody waits in a manager that nothing was submitted to. -/
theorem gated_start (permits : Option Permits) : (start permits : Machine D).Gated := by
  have none {x d : Nat} : ¬(start permits : Machine D).Awaits x d := by
    intro h
    obtain ⟨k, hk⟩ := h.accepted_left
    simpa [start] using hk.lt
  have nobody {i : Nat} {p : Entry D → Prop} : ¬(start permits : Machine D).At i p := by
    intro h
    obtain ⟨e, he, _⟩ := h
    simp [start] at he
  constructor
  case queued => exact fun h => absurd h nobody
  case held => exact fun h => absurd h none
  case clear => exact fun h => absurd h nobody
  all_goals simp [start, pledges, remaining, launches, Pledged, Moored, duties, moorings]

end Machine

end RequestScheduler
