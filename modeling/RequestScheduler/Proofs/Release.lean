import RequestScheduler.Proofs.Gate

/-!
# Work on gates

A gate is made, comes to wait for slots, and is released as these vacate. Each of these steps moves
a pledge from one place to another: from work to a vacancy (`Gated.enrol`), from a vacancy to work
(`Gated.vacate`), or from work to the count of the gate (`Gated.count`). None changes who waits for
whom.
-/

namespace RequestScheduler

namespace Machine

variable {D : Type} {s t : Machine D} {i d x g : Nat} {e f : Entry D} {w : Work D}
  {l r : List (Work D)}

theorem moorings_set (ht : t.entries = s.entries.set i f) :
    t.moorings = s.moorings.set i f.moorings := by
  rw [moorings, ht, List.map_set]
  rfl

theorem getElem?_moorings (he : s.entries[i]? = some e) : s.moorings[i]? = some e.moorings := by
  simp [moorings, he]

/-- A slot vacates: the gates that wait for it are to be released. -/
theorem Gated.vacate (h : s.Gated) (hg : s.Grows t) (he : s.entries[i]? = some e)
    (ht : t.entries = s.entries.set i f) (hgates : t.gates = s.gates)
    (hfm : f.moorings = []) (hfv : f.isVacated = true) (hfq : f.stage ≠ .queued)
    (hft : f.task = e.task) (hd : t.duties = l ++ s.duties)
    (hl : l.filterMap Work.gate? = e.moorings) (hrun : ∀ w ∈ l, ∃ k, w = .run k) : t.Gated := by
  have hlen : t.entries.length = s.entries.length := by simp [ht]
  have hm : t.moorings = s.moorings.set i [] := hfm ▸ moorings_set ht
  have haw {x d : Nat} := awaits_congr (x := x) (d := d) hg hlen
  have sub {w : Work D} (hw : w ∈ t.duties) (hn : ∀ k, w ≠ .run k) : w ∈ s.duties := by
    rw [hd, List.mem_append] at hw
    apply hw.resolve_left
    intro hw
    obtain ⟨k, rfl⟩ := hrun w hw
    exact hn k rfl
  have keep {w : Work D} (hw : w ∈ s.duties) : w ∈ t.duties := hd ▸ List.mem_append_right _ hw
  have hlaunch (x : Nat) : t.launches x = s.launches x := by
    have hn : l.filterMap Work.launches? = [] := List.filterMap_eq_nil_iff.mpr fun w hw => by
      obtain ⟨k, rfl⟩ := hrun w hw
      rfl
    rw [launches, hd, hgates, List.filterMap_append, hn, List.nil_append, launches]
  have other {j : Nat} {a : Entry D} (ha : t.entries[j]? = some a) :
      j = i ∧ a = f ∨ s.entries[j]? = some a := by
    rw [ht] at ha
    exact (getElem?_set_cases ha).imp_right (·.2)
  exact {
    pledged := by
      intro g
      have hs := h.pledged g
      have := total_map_set (f := fun m : List Nat => m.count g) (b := []) (getElem?_moorings he)
      simp only [pledges, remaining, hd, List.filterMap_append, hl, List.count_append, hm, hgates,
        List.count_nil] at hs this ⊢
      omega
    once := fun x => hlaunch x ▸ h.once x
    queued := by
      intro x hq
      obtain ⟨a, ha, hq⟩ := hq
      obtain ⟨rfl, rfl⟩ | ha := other ha
      · exact absurd hq hfq
      · exact hlaunch _ ▸ h.queued ⟨a, ha, hq⟩
    awaiting := by
      intro g d hp
      have hps : s.Pledged g d := by
        obtain hp | ⟨m, hmd, hgm⟩ := hp
        · exact .inl (sub hp (by simp))
        · rw [hm] at hmd
          obtain ⟨_, rfl⟩ | ⟨_, hmd⟩ := getElem?_set_cases hmd
          · cases hgm
          · exact .inr ⟨m, hmd, hgm⟩
      obtain ⟨gate, hgate, ha⟩ := h.awaiting hps
      exact ⟨gate, hgates ▸ hgate, haw.mpr ha⟩
    chained := fun hc hd => haw.mpr (h.chained (sub hc (by simp)) hd)
    held := by
      intro x d ha hv
      have hdi : i ≠ d := by
        rintro rfl
        rw [vacated_eq_true_iff.mpr (.of_set he ht hfv)] at hv
        cases hv
      obtain ⟨ds, hc, hds⟩ | ⟨g, gate, hgate, hx, hp⟩ :=
        h.held (haw.mp ha) (vacated_of_grow hg hv)
      · exact .inl ⟨ds, keep hc, hds⟩
      · refine .inr ⟨g, gate, hgates ▸ hgate, hx, hp.imp keep ?_⟩
        rintro ⟨m, hmd, hgm⟩
        exact ⟨m, by rw [hm, List.getElem?_set_ne hdi, hmd], hgm⟩
    clear := by
      intro x d hs ha
      obtain ⟨a, haj, hs⟩ := hs
      refine vacated_grow hg (h.clear ?_ (haw.mp ha))
      obtain ⟨rfl, rfl⟩ | haj := other haj
      · exact ⟨e, he, fun hk => hs (hft.trans hk)⟩
      · exact ⟨a, haj, hs⟩
    gate_lt := fun hm => hlen ▸ h.gate_lt (hgates ▸ hm)
    launch_lt := fun {w x} hm hw => hlen ▸ h.launch_lt (sub hm fun k hk => by
      subst hk
      cases hw) hw }

/-- A gate comes to wait for a slot. -/
theorem Gated.enrol (h : s.Gated) (hg : s.Grows t) (he : s.entries[d]? = some e)
    (ht : t.entries = s.entries.set d f) (hgates : t.gates = s.gates)
    (hfm : f.moorings = e.moorings ++ [g]) (hfv : f.isVacated = e.isVacated)
    (hfq : f.stage = e.stage) (hft : f.task = e.task) (hd : s.duties = .await g d :: t.duties) :
    t.Gated := by
  have hlen : t.entries.length = s.entries.length := by simp [ht]
  have hm : t.moorings = s.moorings.set d (e.moorings ++ [g]) := hfm ▸ moorings_set ht
  have hmd : t.moorings[d]? = some (e.moorings ++ [g]) := by
    have hl := (List.getElem?_eq_some_iff.mp (getElem?_moorings he)).1
    rw [hm, List.getElem?_set_self hl]
  have haw {x d : Nat} := awaits_congr (x := x) (d := d) hg hlen
  have sub {w : Work D} (hw : w ∈ t.duties) : w ∈ s.duties := hd ▸ List.mem_cons_of_mem _ hw
  have hlaunch (x : Nat) : t.launches x = s.launches x := by
    rw [launches, launches, hd, hgates, List.filterMap_cons_none rfl]
  have hp {k j : Nat} : t.Pledged k j ↔ s.Pledged k j := by
    constructor
    · rintro (hp | ⟨m, hmj, hkm⟩)
      · exact .inl (sub hp)
      · rw [hm] at hmj
        obtain ⟨rfl, rfl⟩ | ⟨_, hmj⟩ := getElem?_set_cases hmj
        · rw [List.mem_append, List.mem_singleton] at hkm
          obtain hkm | rfl := hkm
          · exact .inr ⟨_, getElem?_moorings he, hkm⟩
          · exact .inl (hd ▸ List.mem_cons_self)
        · exact .inr ⟨m, hmj, hkm⟩
    · rintro (hp | ⟨m, hmj, hkm⟩)
      · rw [hd, List.mem_cons] at hp
        obtain hp | hp := hp
        · cases hp
          exact .inr ⟨_, hmd, List.mem_append_right _ (List.mem_singleton.mpr rfl)⟩
        · exact .inl hp
      · by_cases hj : d = j
        · subst hj
          obtain rfl := Option.some.inj ((getElem?_moorings he).symm.trans hmj)
          exact .inr ⟨_, hmd, List.mem_append_left _ hkm⟩
        · exact .inr ⟨m, by rw [hm, List.getElem?_set_ne hj, hmj], hkm⟩
  have same {p : Entry D → Prop} (hpf : p f → p e) {j : Nat} (ha : t.At j p) : s.At j p := by
    obtain ⟨a, ha, hpa⟩ := ha
    rw [ht] at ha
    obtain ⟨rfl, rfl⟩ | ⟨_, ha⟩ := getElem?_set_cases ha
    · exact ⟨e, he, hpf hpa⟩
    · exact ⟨a, ha, hpa⟩
  exact {
    pledged := by
      intro k
      have hs := h.pledged k
      have := total_map_set (f := fun m : List Nat => m.count k) (b := e.moorings ++ [g])
        (getElem?_moorings he)
      have hgate : (s.duties.filterMap Work.gate?) = g :: t.duties.filterMap Work.gate? := by
        rw [hd]
        rfl
      simp only [pledges, remaining, hgate, List.count_cons, List.count_append, List.count_nil, hm,
        hgates] at hs this ⊢
      omega
    once := fun x => hlaunch x ▸ h.once x
    queued := fun hq => hlaunch _ ▸ h.queued (same (fun hf => hfq ▸ hf) hq)
    awaiting := by
      intro g d hpt
      obtain ⟨gate, hgate, ha⟩ := h.awaiting (hp.mp hpt)
      exact ⟨gate, hgates ▸ hgate, haw.mpr ha⟩
    chained := fun hc hd => haw.mpr (h.chained (sub hc) hd)
    held := by
      intro x d ha hv
      obtain ⟨ds, hc, hds⟩ | ⟨k, gate, hgate, hx, hps⟩ :=
        h.held (haw.mp ha) (vacated_of_grow hg hv)
      · rw [hd, List.mem_cons] at hc
        exact .inl ⟨ds, hc.resolve_left (by simp), hds⟩
      · exact .inr ⟨k, gate, hgates ▸ hgate, hx, hp.mpr hps⟩
    clear := fun hs ha => vacated_grow hg (h.clear (same (fun hf => hft ▸ hf) hs) (haw.mp ha))
    gate_lt := fun hm => hlen ▸ h.gate_lt (hgates ▸ hm)
    launch_lt := fun hm hw => hlen ▸ h.launch_lt (sub hm) hw }

theorem filterMap_await (g : Nat) (ds : List Nat) :
    (ds.map (Work.await g)).filterMap (Work.gate? (D := D)) = List.replicate ds.length g := by
  induction ds with
  | nil => rfl
  | cons d ds ih => simp [Work.gate?, ih, List.replicate_succ]

section Gates

variable (h : s.Gated) (hg : s.Grows t) (he : t.entries = s.entries)

include h hg he

/-- A gate is to be released now, since the slot that it would wait for has vacated. -/
theorem Gated.forward (hgates : t.gates = s.gates) (hs : s.duties = w :: r)
    (ht : t.duties = .release g :: r)
    (hw : (∃ d, w = .await g d ∧ s.vacated d = true) ∨ w = .run (.release g)) : t.Gated := by
  have hm : t.moorings = s.moorings := by rw [moorings, he, moorings]
  have hlen : t.entries.length = s.entries.length := by rw [he]
  have haw {x d : Nat} := awaits_congr (x := x) (d := d) hg hlen
  have hwg : w.gate? = some g ∧ w.launches? = none := by
    obtain ⟨d, rfl, _⟩ | rfl := hw <;> exact ⟨rfl, rfl⟩
  have sub {v : Work D} (hv : v ∈ t.duties) (hn : v ≠ .release g) : v ∈ s.duties := by
    rw [ht, List.mem_cons] at hv
    exact hs ▸ List.mem_cons_of_mem _ (hv.resolve_left hn)
  have keep {v : Work D} (hv : v ∈ s.duties) (hn : v ≠ w) : v ∈ t.duties := by
    rw [hs, List.mem_cons] at hv
    exact ht ▸ List.mem_cons_of_mem _ (hv.resolve_left hn)
  have hlaunch (x : Nat) : t.launches x = s.launches x := by
    rw [launches, launches, hs, ht, hgates, List.filterMap_cons_none hwg.2,
      List.filterMap_cons_none rfl]
  exact {
    pledged := by
      intro k
      have := h.pledged k
      rwa [pledges, remaining, hm, hgates, ht, List.filterMap_cons_some (f := Work.gate?) (b := g)
        rfl, ← List.filterMap_cons_some hwg.1, ← hs]
    once := fun x => hlaunch x ▸ h.once x
    queued := fun hq => hlaunch _ ▸ h.queued ((At.congr he).mp hq)
    awaiting := by
      intro g d hp
      obtain ⟨gate, hgate, ha⟩ := h.awaiting (hp.imp (sub · (by simp)) (moored_congr hm).mp)
      exact ⟨gate, hgates ▸ hgate, haw.mpr ha⟩
    chained := fun hc hd => haw.mpr (h.chained (sub hc (by simp)) hd)
    held := by
      intro x d ha hv
      have hvs : s.vacated d = false := vacated_of_grow hg hv
      obtain ⟨ds, hc, hds⟩ | ⟨k, gate, hgate, hx, hp⟩ := h.held (haw.mp ha) hvs
      · refine .inl ⟨ds, keep hc ?_, hds⟩
        rintro rfl
        cases hwg.1
      · refine .inr ⟨k, gate, hgates ▸ hgate, hx,
          hp.imp (fun hk => keep hk ?_) (moored_congr hm).mpr⟩
        obtain ⟨b, rfl, hb⟩ | rfl := hw
        · rintro ⟨⟩
          simp [hb] at hvs
        · simp
    clear := fun hx hxd => vacated_grow hg (h.clear ((At.congr he).mp hx) (haw.mp hxd))
    gate_lt := fun hm => hlen ▸ h.gate_lt (hgates ▸ hm)
    launch_lt := fun hm hw => hlen ▸ h.launch_lt (sub hm (by
      rintro rfl
      cases hw)) hw }

/-- A gate is released once, and dispatches its slot when that was the last time. -/
theorem Gated.count {gate : Gate} (hgate : s.gates[g]? = some gate)
    (hgates : t.gates = s.gates.set g { gate with remaining := gate.remaining - 1 })
    (hs : s.duties = .release g :: r)
    (ht : t.duties = (if gate.remaining = 1 then [.dispatch gate.slot] else []) ++ r) :
    t.Gated := by
  have hm : t.moorings = s.moorings := by rw [moorings, he, moorings]
  have hlen : t.entries.length = s.entries.length := by rw [he]
  have haw {x d : Nat} := awaits_congr (x := x) (d := d) hg hlen
  have hgl := (List.getElem?_eq_some_iff.mp hgate).1
  have hpos : 0 < gate.remaining := by
    have := h.pledged g
    rw [pledges, hs, List.filterMap_cons_some (f := Work.gate?) (b := g) rfl, List.count_cons_self,
      remaining, hgate] at this
    simp only at this
    omega
  have sub {v : Work D} (hv : v ∈ t.duties) : v = .dispatch gate.slot ∨ v ∈ s.duties := by
    rw [ht, List.mem_append] at hv
    refine hv.imp (fun hv => ?_) fun hv => hs ▸ List.mem_cons_of_mem _ hv
    split at hv
    · exact List.mem_singleton.mp hv
    · cases hv
  have keep {v : Work D} (hv : v ∈ s.duties) (hn : v ≠ .release g) : v ∈ t.duties := by
    rw [hs, List.mem_cons] at hv
    exact ht ▸ List.mem_append_right _ (hv.resolve_left hn)
  -- The slots of the gates stay as they are.
  have slot {k : Nat} {b : Gate} (hb : s.gates[k]? = some b) :
      ∃ c, t.gates[k]? = some c ∧ c.slot = b.slot := by
    by_cases hk : g = k
    · subst hk
      obtain rfl := Option.some.inj (hgate.symm.trans hb)
      exact ⟨{ gate with remaining := gate.remaining - 1 },
        by rw [hgates, List.getElem?_set_self hgl], rfl⟩
    · exact ⟨b, by rw [hgates, List.getElem?_set_ne hk, hb], rfl⟩
  have hlaunch (x : Nat) : t.launches x = s.launches x := by
    have hset := List.countP_set (a := { gate with remaining := gate.remaining - 1 })
      (p := fun b : Gate => decide (b.slot = x ∧ 0 < b.remaining)) hgl
    have hle : (if decide (gate.slot = x ∧ 0 < gate.remaining) = true then 1 else 0) ≤
        s.gates.countP fun b => decide (b.slot = x ∧ 0 < b.remaining) := by
      split
      · rename_i hp
        exact List.countP_pos_iff.mpr ⟨gate, List.mem_of_getElem? hgate, hp⟩
      · exact Nat.zero_le _
    have hstep : ((if gate.remaining = 1 then [Work.dispatch gate.slot] else []).filterMap
        (Work.launches? (D := D))).count x +
        (if decide (gate.slot = x ∧ 0 < gate.remaining - 1) = true then 1 else 0) =
        if decide (gate.slot = x ∧ 0 < gate.remaining) = true then 1 else 0 := by
      by_cases h1 : gate.remaining = 1
      · by_cases hx : gate.slot = x <;> simp [h1, hx, Work.launches?]
      · have h2 : 0 < gate.remaining - 1 := by omega
        simp [h1, h2, hpos]
    rw [(List.getElem?_eq_some_iff.mp hgate).2] at hset
    rw [launches, launches, hs, ht, hgates, hset, List.filterMap_append,
      List.filterMap_cons_none (f := Work.launches?) (a := .release g) rfl, List.count_append]
    dsimp only
    omega
  exact {
    pledged := by
      intro k
      have hk := h.pledged k
      have hn : (if gate.remaining = 1 then [Work.dispatch gate.slot] else []).filterMap
          (Work.gate? (D := D)) = [] := by
        split <;> rfl
      rw [pledges, hs, List.filterMap_cons_some (f := Work.gate?) (b := g) rfl,
        List.count_cons, remaining] at hk
      rw [pledges, ht, hm, List.filterMap_append, hn, List.nil_append, remaining, hgates]
      by_cases hgk : g = k
      · subst hgk
        rw [List.getElem?_set_self hgl]
        simp only [hgate, beq_self_eq_true, ↓reduceIte] at hk ⊢
        omega
      · rw [List.getElem?_set_ne hgk]
        simpa [hgk] using hk
    once := fun x => hlaunch x ▸ h.once x
    queued := fun hq => hlaunch _ ▸ h.queued ((At.congr he).mp hq)
    awaiting := by
      intro k d hp
      have hps : s.Pledged k d := by
        refine hp.imp (fun hk => ?_) (moored_congr hm).mp
        exact (sub hk).resolve_left (by simp)
      obtain ⟨b, hb, ha⟩ := h.awaiting hps
      obtain ⟨c, hc, hcb⟩ := slot hb
      exact ⟨c, hc, hcb ▸ haw.mpr ha⟩
    chained := fun hc hd => haw.mpr (h.chained ((sub hc).resolve_left (by simp)) hd)
    held := by
      intro x d ha hv
      obtain ⟨ds, hc, hds⟩ | ⟨k, b, hb, hx, hp⟩ := h.held (haw.mp ha) (vacated_of_grow hg hv)
      · exact .inl ⟨ds, keep hc (by simp), hds⟩
      · obtain ⟨c, hc, hcb⟩ := slot hb
        exact .inr ⟨k, c, hc, hcb.trans hx, hp.imp (keep · (by simp))
          (moored_congr hm).mpr⟩
    clear := fun hx hxd => vacated_grow hg (h.clear ((At.congr he).mp hx) (haw.mp hxd))
    gate_lt := by
      intro b hb
      rw [hgates] at hb
      obtain hb | rfl := List.mem_or_eq_of_mem_set hb
      · exact hlen ▸ h.gate_lt hb
      · have := h.gate_lt (List.mem_of_getElem? hgate)
        exact hlen ▸ this
    launch_lt := by
      intro v x hv hw
      obtain rfl | hv := sub hv
      · obtain rfl := Option.some.inj hw
        exact hlen ▸ h.gate_lt (List.mem_of_getElem? hgate)
      · exact hlen ▸ h.launch_lt hv hw }

/-- A gate is made. -/
theorem Gated.chain {ds : List Nat}
    (hgates : t.gates = s.gates ++ [{ slot := x, remaining := ds.length + 1 }])
    (hs : s.duties = .chain x ds :: r)
    (ht : t.duties = ds.map (Work.await s.gates.length) ++ .release s.gates.length :: r) :
    t.Gated := by
  have hm : t.moorings = s.moorings := by rw [moorings, he, moorings]
  have hlen : t.entries.length = s.entries.length := by rw [he]
  have haw {x d : Nat} := awaits_congr (x := x) (d := d) hg hlen
  have hmem : .chain x ds ∈ s.duties := hs ▸ List.mem_cons_self
  have sub {v : Work D} (hv : v ∈ t.duties) :
      (∃ d ∈ ds, v = .await s.gates.length d) ∨ v = .release s.gates.length ∨ v ∈ s.duties := by
    rw [ht, List.mem_append, List.mem_map, List.mem_cons] at hv
    obtain ⟨d, hd, rfl⟩ | rfl | hv := hv
    · exact .inl ⟨d, hd, rfl⟩
    · exact .inr (.inl rfl)
    · exact .inr (.inr (hs ▸ List.mem_cons_of_mem _ hv))
  have keep {v : Work D} (hv : v ∈ s.duties) (hn : v ≠ .chain x ds) : v ∈ t.duties := by
    rw [hs, List.mem_cons] at hv
    exact ht ▸ List.mem_append_right _ (List.mem_cons_of_mem _ (hv.resolve_left hn))
  have old {k : Nat} {b : Gate} (hb : s.gates[k]? = some b) : t.gates[k]? = some b :=
    hgates ▸ getElem?_append_of_some hb
  have new : t.gates[s.gates.length]? = some { slot := x, remaining := ds.length + 1 } := by
    rw [hgates, List.getElem?_concat_length]
  have hlaunch (y : Nat) : t.launches y = s.launches y := by
    have hn : (ds.map (Work.await s.gates.length)).filterMap (Work.launches? (D := D)) = [] := by
      simp [Work.launches?]
    rw [launches, launches, hs, ht, hgates, List.filterMap_append, hn, List.nil_append,
      List.filterMap_cons_none (f := Work.launches?) (a := .release s.gates.length) rfl,
      List.filterMap_cons_some (f := Work.launches?) (b := x) rfl, List.countP_append]
    by_cases hxy : x = y
    · subst hxy
      simp
      omega
    · simp [hxy]
  exact {
    pledged := by
      intro k
      have hk := h.pledged k
      have hold (hn : s.gates.length ≠ k) : t.gates[k]? = s.gates[k]? := by
        rw [hgates]
        by_cases hkl : k < s.gates.length
        · rw [List.getElem?_append_left hkl]
        · rw [List.getElem?_eq_none (by simp; omega), List.getElem?_eq_none (by omega)]
      rw [pledges, hs, List.filterMap_cons_none (f := Work.gate?) (a := .chain x ds) rfl,
        remaining] at hk
      rw [pledges, ht, hm, List.filterMap_append, filterMap_await,
        List.filterMap_cons_some (f := Work.gate?) (b := s.gates.length) rfl, List.count_append,
        List.count_replicate, List.count_cons, remaining]
      by_cases hkn : s.gates.length = k
      · subst hkn
        rw [new]
        simp only [List.getElem?_eq_none (Nat.le_refl _)] at hk
        simp
        omega
      · rw [hold hkn]
        simpa [hkn] using hk
    once := fun x => hlaunch x ▸ h.once x
    queued := fun hq => hlaunch _ ▸ h.queued ((At.congr he).mp hq)
    awaiting := by
      intro k d hp
      have hps : (k = s.gates.length ∧ d ∈ ds) ∨ s.Pledged k d := by
        obtain hk | hk := hp
        · obtain ⟨b, hd, hk⟩ | hk | hk := sub hk
          · cases hk
            exact .inl ⟨rfl, hd⟩
          · cases hk
          · exact .inr (.inl hk)
        · exact .inr (.inr ((moored_congr hm).mp hk))
      obtain ⟨rfl, hd⟩ | hps := hps
      · exact ⟨_, new, haw.mpr (h.chained hmem hd)⟩
      · obtain ⟨b, hb, ha⟩ := h.awaiting hps
        exact ⟨b, old hb, haw.mpr ha⟩
    chained := by
      intro x d ds hc hd
      obtain ⟨_, _, hc⟩ | hc | hc := sub hc
      · cases hc
      · cases hc
      · exact haw.mpr (h.chained hc hd)
    held := by
      intro y d ha hv
      obtain ⟨es, hc, hds⟩ | ⟨k, b, hb, hy, hp⟩ := h.held (haw.mp ha) (vacated_of_grow hg hv)
      · by_cases hce : Work.chain y es = .chain (D := D) x ds
        · cases hce
          refine .inr ⟨_, _, new, rfl, .inl ?_⟩
          rw [ht]
          exact List.mem_append_left _ (List.mem_map_of_mem hds)
        · exact .inl ⟨es, keep hc hce, hds⟩
      · exact .inr ⟨k, b, old hb, hy, hp.imp (keep · (by simp))
          (moored_congr hm).mpr⟩
    clear := fun hx hxd => vacated_grow hg (h.clear ((At.congr he).mp hx) (haw.mp hxd))
    gate_lt := by
      intro b hb
      rw [hgates, List.mem_append, List.mem_singleton] at hb
      obtain hb | rfl := hb
      · exact hlen ▸ h.gate_lt hb
      · have := h.launch_lt hmem rfl
        exact hlen ▸ this
    launch_lt := by
      intro v x hv hw
      obtain ⟨_, _, rfl⟩ | rfl | hv := sub hv
      · cases hw
      · cases hw
      · exact hlen ▸ h.launch_lt hv hw }

end Gates

end Machine

end RequestScheduler
