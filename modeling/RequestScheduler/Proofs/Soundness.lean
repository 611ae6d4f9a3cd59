import RequestScheduler.Proofs.Spent

/-!
# The rules keep a machine sound

There is one lemma for the work, one for the entries and one for each of the other clauses of
soundness, with one case for each rule; they are put together in `Rule.sound`.
-/

namespace RequestScheduler

namespace Machine

variable {D : Type} {s t : Machine D} {i : Nat} {e f : Entry D} {w : Work D}

/-- Whatever is settled or about to be stays so. -/
theorem Rule.secured (h : Rule s t) (hs : s.Sound) (hi : s.Secured i) : t.Secured i := by
  have hg : s.Grows t := h.grows hs.isCoherent
  obtain hi | ⟨o, ho⟩ := hi
  · exact .inl (hi.mono hg (·.isSettled))
  obtain ho' | hset := h.spent ho
  · exact .inr ⟨o, ho'⟩
  obtain ⟨e, he, _⟩ : s.At i _ := hs.work ho
  obtain ⟨f, hf, _⟩ := hg.entry he
  exact .inl ⟨f, hf, by simpa [Spent, isPending, hf] using hset⟩

/-- Work that was to be done already stays sound. -/
theorem Rule.sound_old (h : Rule s t) (hs : s.Sound) (hw : w ∈ s.work) : w.Sound t := by
  obtain ⟨_, hb⟩ | ⟨_, _, _, _, hn, _⟩ := h.begun hs.isCoherent
  · exact (hs.work hw).mono (h.grows hs.isCoherent) (h.secured hs) hb
  · simp [hn] at hw

/-- What waits for a settlement are the continuations of clients. -/
theorem Sound.sound_reactions (hs : s.Sound) (he : s.entries[i]? = some e) :
    ∀ w ∈ e.request.cell.continuations.map Work.run, w.Sound t := by
  intro w hw
  obtain ⟨k, hk, rfl⟩ := List.mem_map.mp hw
  obtain ⟨tag, effects, rfl⟩ := (hs.entry he).coherent.reactions k hk
  simp [Work.Sound]

/-- What waits for a vacancy are gates. -/
theorem Sound.sound_releases (hs : s.Sound) (he : s.entries[i]? = some e) :
    ∀ w ∈ e.vacancy.continuations.map Work.run, w.Sound t := by
  intro w hw
  obtain ⟨k, hk, rfl⟩ := List.mem_map.mp hw
  obtain ⟨g, rfl⟩ := (hs.entry he).coherent.releases k hk
  simp [Work.Sound]

/-- Whoever requests a cancellation does sound work after the settlement. -/
theorem Cancels.sound {done after rest : List (Work D)} (hc : Cancels i e done after)
    (hs : s.Sound) (hg : s.Grows t) (hr : s.work = done ++ rest) (he : s.entries[i]? = some e)
    (ht : t.entries = s.entries.set i { e with request := e.request.trip })
    (hsettle : .settle i (.error .cancelled) ∈ t.work) : ∀ w ∈ after, w.Sound t := by
  intro w hw
  have hset {p : Entry D → Prop} := At.of_set (p := p) he ht
  have idle {items : List (Work D)} (hi : ∀ w ∈ items, w.isIdle) (hw : w ∈ items) : w.Sound t :=
    Work.sound_of_isIdle (hi w hw)
  have skip (ha : e.stage ≠ .refused) : (Work.skip i).Sound t :=
    ⟨hset ⟨ha, rfl⟩, .inr ⟨_, hsettle⟩⟩
  cases hc with
  | client _ ha => exact idle ha hw
  | slot =>
      obtain rfl := List.mem_singleton.mp hw
      exact skip (At.of_entry (hs.work (w := .cancelSlot i) (by simp [hr])) he)
  | @supersede x _ hn =>
      obtain rfl | hw := List.mem_cons.mp hw
      · exact skip (At.of_entry (hs.work (w := .supersede i x) (by simp [hr])).1 he)
      · exact idle hn hw
  | @each ids total count _ =>
      have hids : (Work.cancelEach (i :: ids) total count).Sound s := hs.work (by simp [hr])
      simp only [List.mem_cons, List.not_mem_nil, or_false] at hw
      obtain rfl | rfl := hw
      · exact skip ((hids i List.mem_cons_self).of_entry he)
      · exact fun j hj => (hids j (List.mem_cons_of_mem _ hj)).admitted hg
  | stop ht hb =>
      obtain rfl := List.mem_singleton.mp hw
      exact hset ⟨ht, fun _ h => by simp [hb] at h⟩

/-- A slot that is skipped is secured: its settlement is on its way, or was made before. -/
theorem Sound.secured_skip {v : Work D} (hs : s.Sound) (hv : v ∈ s.work)
    (hk : v = .skip i ∨ v = .dispatch i) (he : s.entries[i]? = some e) (hq : e.stage = .queued)
    (ht : e.request.tripped = true) : s.Secured i := by
  obtain rfl | rfl := hk
  · exact (hs.work hv).2
  · obtain ⟨_, _, body, hb⟩ := (hs.entry he).coherent.queued hq
    exact ((hs.entry he).tripped ht).resolve_right (by simp [hb, Callback.hasBegun])

/-- A task that ends has its slot vacate when the request is settled. -/
theorem Sound.sound_endTask (hs : s.Sound) (hw : .endTask i ∈ s.work)
    (he : s.entries[i]? = some e)
    (ht : t.entries = s.entries.set i { e with task := .ended, callback := e.callback.close })
    (hl : t.live = s.live) (hsettle : .settle i (.error .cancelled) ∈ t.work) :
    ∀ w ∈ [Work.settle i (.error .cancelled), .vacate i], w.Sound t := by
  intro w hmem
  have hset {p : Entry D → Prop} := At.of_set (p := p) he ht
  simp only [List.mem_cons, List.not_mem_nil, or_false] at hmem
  obtain rfl | rfl := hmem
  · exact hset (.inl rfl)
  · refine ⟨hset ⟨rfl, ?_, fun hlive => ?_⟩, .inr ⟨_, hsettle⟩⟩
    · cases e.callback <;> rfl
    · have := ((hs.work hw).of_entry he).2 (hl ▸ hlive)
      cases hc : e.callback <;>
        simp_all [Callback.close, Callback.isOver, Callback.hasBegun]

/-- What a write has to do when it is admitted is about requests that are there. -/
theorem Sound.sound_admitWrite (hs : s.Sound) (hg : s.Grows t)
    (ht : t.entries = s.entries ++ [f]) :
    ∀ w ∈ (s.admission.reads ++ s.admission.currentWrite.toList).map
        (Work.supersede · s.entries.length) ++
      [.chain s.entries.length s.admission.reads], w.Sound t := by
  intro w hw
  obtain hw | hw := List.mem_append.mp hw
  · obtain ⟨v, hv, rfl⟩ := List.mem_map.mp hw
    refine ⟨(hs.listed ?_).admitted hg, .of_append ht trivial⟩
    obtain hv | hv := List.mem_append.mp hv
    · exact .inl hv
    · exact .inr (.inr (Option.mem_toList.mp hv))
  · obtain rfl := List.mem_singleton.mp hw
    exact fun d hd => ((hs.listed (.inl hd)).admitted hg).imp fun _ _ => trivial

/-- Work that is still to be done stays sound, and a rule leaves sound work only. -/
theorem Rule.sound_work (h : Rule s t) (hs : s.Sound) (hw : w ∈ t.work) : w.Sound t := by
  have hg : s.Grows t := h.grows hs.isCoherent
  have hsec {i : Nat} (hi : s.Secured i) : t.Secured i := h.secured hs hi
  have old (hw : w ∈ s.work) : w.Sound t := h.sound_old hs hw
  have kept {d l r : List (Work D)} (hr : s.work = d ++ r) (hw : w ∈ l ++ r)
      (hi : ∀ w ∈ l, w.Sound t) : w.Sound t := by
    obtain hw | hw := List.mem_append.mp hw
    · exact hi w hw
    · exact old (hr ▸ List.mem_append_right _ hw)
  have idle {items : List (Work D)} (h : ∀ w ∈ items, w.isIdle) : ∀ w ∈ items, w.Sound t :=
    fun w hw => Work.sound_of_isIdle (h w hw)
  have listed {i : Nat} (hi : i ∈ s.admission.reads ∨ i ∈ s.admission.writes ∨
      s.admission.currentWrite = some i) : t.At i (·.stage ≠ .refused) :=
    (hs.listed hi).admitted hg
  cases h with
  | touch _ hr ht _ hi => exact kept hr (ht ▸ hw) (idle hi)
  | prune | flag => exact old hw
  | pass hr => exact old (hr ▸ List.mem_cons_of_mem _ hw)
  | publish hr he => exact kept (d := [_]) hr hw (hs.sound_reactions he)
  | @cancel i e done after rest hr he hc =>
      apply kept hr hw
      intro w hw
      obtain rfl | hw := List.mem_cons.mp hw
      · exact .of_set he rfl (.inl rfl)
      · exact hc.sound hs hg hr he rfl (List.mem_append_left _ List.mem_cons_self) w hw
  | collect hr _ ha =>
      apply kept hr hw
      intro w hw
      obtain rfl | hw := List.mem_cons.mp hw
      · exact fun i hi => listed ((List.mem_append.mp hi).elim (.inr ∘ .inl) .inl)
      · exact idle ha w hw
  | close =>
      apply kept (d := []) rfl hw
      intro w hw
      obtain ⟨i, hi, rfl⟩ := List.mem_map.mp hw
      exact listed ((List.mem_append.mp hi).elim (.inr ∘ .inl) .inl)
  | @skip i e v rest hr hk he hq ht =>
      apply kept (d := [v]) (l := [.openVacancy i]) hr hw
      intro w hw
      obtain rfl := List.mem_singleton.mp hw
      have hv : v ∈ s.work := hr ▸ List.mem_cons_self
      exact ⟨.of_set he rfl rfl, hsec (hs.secured_skip hv hk he hq ht)⟩
  | @vacate i e v notes rest hr he _ _ hn =>
      apply kept (d := [v]) hr hw
      intro w hw
      obtain hw | hw := List.mem_append.mp hw
      · exact hs.sound_releases he w hw
      · exact idle hn w hw
  | @spawn i e task items rest hr he _ _ hl =>
      apply kept (d := [.dispatch i]) hr hw
      intro v hv
      obtain ⟨_, _, rfl⟩ | ⟨hl, rfl, rfl⟩ := hl
      · cases hv
      · obtain rfl := List.mem_singleton.mp hv
        exact .of_set he rfl ⟨by simp, fun h => by simp [hl] at h⟩
  | @chain x ds rest hr =>
      refine kept (d := [_]) (l := ds.map (Work.await s.gates.length) ++
        [.release s.gates.length]) hr (by simpa using hw) fun w hw => ?_
      obtain hw | hw := List.mem_append.mp hw
      · obtain ⟨d, hd, rfl⟩ := List.mem_map.mp hw
        exact hs.work (w := .chain x ds) (by simp [hr]) d hd
      · obtain rfl := List.mem_singleton.mp hw
        trivial
  | enrol hr | yield hr => exact old (hr ▸ List.mem_cons_of_mem _ hw)
  | @forward g v rest hr =>
      apply kept (d := [v]) (l := [.release g]) hr hw
      intro w hw
      obtain rfl := List.mem_singleton.mp hw
      trivial
  | @count g gate rest hr =>
      refine kept (d := [.release g]) (r := rest)
        (l := if gate.remaining = 1 then [.dispatch gate.slot] else []) hr ?_ fun w hw => ?_
      · by_cases hg : gate.remaining = 1 <;> simpa [hg] using hw
      · by_cases hg : gate.remaining = 1
        · obtain rfl : w = .dispatch gate.slot := by simpa [hg] using hw
          trivial
        · simp [hg] at hw
  | @endTask i e rest hr he =>
      exact kept (d := [.endTask i]) (l := [.settle i (.error .cancelled), .vacate i]) hr hw
        (hs.sound_endTask (hr ▸ List.mem_cons_self) he rfl rfl List.mem_cons_self)
  | @hear i o e he hc ht =>
      apply kept (d := []) (l := [.settle i o, .endTask i]) rfl hw
      intro w hw
      simp only [List.mem_cons, List.not_mem_nil, or_false] at hw
      obtain rfl | rfl := hw
      · exact ⟨e, he, .inr (.inl hc)⟩
      · exact ⟨e, he, ht, fun _ _ => hc⟩
  | begin hr => exact old hw
  | @lead i e v items hr he hc hi hk =>
      obtain hw | hw := List.mem_append.mp hw
      · exact idle hi w hw
      · obtain rfl := List.mem_singleton.mp hw
        cases w <;> simp_all [Work.ends?, Work.Sound]
  | refuse _ hr _ ha =>
      apply kept hr hw
      intro w hw
      obtain rfl | hw := List.mem_cons.mp hw
      · exact .of_append rfl (.inr (.inr rfl))
      · exact idle ha w hw
  | read _ _ _ hr _ ha =>
      apply kept hr hw
      intro w hw
      obtain rfl | hw := List.mem_cons.mp hw
      · split
        · trivial
        · rename_i x hx
          refine fun d hd => (listed (.inr (.inr ?_))).imp fun _ _ => trivial
          rw [hx, List.mem_singleton.mp hd]
      · exact idle ha w hw
  | write _ _ _ hr _ ha =>
      apply kept hr hw
      intro w hw
      rw [← List.singleton_append, ← List.append_assoc] at hw
      obtain hw | hw := List.mem_append.mp hw
      · exact hs.sound_admitWrite hg rfl w hw
      · exact idle ha w hw
  | lose hr ht =>
      obtain ⟨i, hi, rfl⟩ := List.mem_map.mp hw
      obtain ⟨e, he, hk⟩ := ht i hi
      exact ⟨e, he, hk, by simp⟩

/-- The entries stay sound, and new ones are. -/
theorem Rule.sound_entry (h : Rule s t) (hs : s.Sound) (hf : t.entries[i]? = some f) :
    f.Sound t i := by
  have hg : s.Grows t := h.grows hs.isCoherent
  have hsec {i : Nat} (hi : s.Secured i) : t.Secured i := h.secured hs hi
  have old {j : Nat} {a : Entry D} (ha : s.entries[j]? = some a) : a.Sound t j :=
    (hs.entry ha).mono hsec hg.live
  have one {j : Nat} {b : Entry D} (ht : t.entries = s.entries.set j b) (hb : b.Sound t j) :
      f.Sound t i := by
    rw [ht] at hf
    obtain ⟨rfl, rfl⟩ | ⟨_, hf⟩ := getElem?_set_cases hf
    · exact hb
    · exact old hf
  have new {b : Entry D} (ht : t.entries = s.entries ++ [b]) (hb : b.Sound t s.entries.length) :
      f.Sound t i := by
    obtain ⟨rfl, rfl⟩ | hf := getElem?_concat_cases (ht ▸ hf)
    · exact hb
    · exact old hf
  cases h with
  | touch h =>
      have hi := (List.getElem?_eq_some_iff.mp hf).1
      rw [h.length] at hi
      obtain ⟨g, hg, heg⟩ := h.entry (List.getElem?_eq_getElem hi)
      obtain rfl := Option.some.inj (hf.symm.trans hg)
      exact (old (List.getElem?_eq_getElem hi)).touch heg
  | prune | pass | collect | close | chain | forward | count | hear | lead | lose => exact old hf
  | publish hr he =>
      have ho := (hs.work (w := .settle _ _) (by rw [hr]; exact List.mem_cons_self)).of_entry he
      exact one rfl ((old he).touch (.publish _ ho))
  | flag he hb =>
      have ha := old he
      exact one rfl (ha.berth rfl ha.coherent.trip (fun _ => .inr hb) id)
  | cancel _ he =>
      have ha := old he
      exact one rfl (ha.berth rfl ha.coherent.trip
        (fun _ => .inl (.inr ⟨_, List.mem_append_left _ List.mem_cons_self⟩)) id)
  | @skip i e w rest hr hk he hq ht =>
      have ha := old he
      obtain ⟨_, hv, body, hb⟩ := ha.coherent.queued hq
      exact one rfl {
        coherent := Entry.Shift.coherent (.skip hq ht) ha.coherent
        vacated := fun h => absurd (hv.symm.trans h) (by simp)
        tripped := fun _ => .inl ((ha.tripped ht).resolve_right (by simp [hb, Callback.hasBegun]))
        refused := by simp
        isOver := by simp [Callback.isOver] }
  | @vacate i e w notes rest hr he _ hw =>
      have ha := old he
      have hi := hs.work (w := w) (by simp [hr])
      refine one rfl {
        coherent := ?_, vacated := fun _ => ?_, tripped := ha.tripped, refused := by simp
        isOver := fun hl _ => ?_ }
      · obtain ⟨rfl, hv⟩ | ⟨rfl, ht, hc⟩ := hw
        · have := Entry.Shift.coherent (.openVacancy hv) ha.coherent
          rwa [← hv]
        · exact Entry.Shift.coherent (.vacate ht hc) ha.coherent
      · obtain ⟨rfl, _⟩ | ⟨rfl, _⟩ := hw
        · exact hsec hi.2
        · exact hsec hi.2
      · obtain ⟨rfl, hv⟩ | ⟨rfl, _⟩ := hw
        · exact ha.isOver hl hv
        · exact (hi.1.of_entry he).2.2 (hg.live hl)
  | spawn _ he hq ht hl =>
      have ha := old he
      exact one rfl {
        coherent := Entry.Shift.coherent (.dispatch _ hq ht (hl.imp (·.2.1) (·.2.1))) ha.coherent
        vacated := ha.vacated
        tripped := fun h => absurd (ht.symm.trans h) (by simp)
        refused := by simp
        isOver := by simp }
  | enrol _ he =>
      have ha := old he
      exact one rfl {
        coherent := Entry.Shift.coherent (.enrol _) ha.coherent
        vacated := fun hv => ha.vacated (by simpa [Entry.isVacated] using hv)
        tripped := ha.tripped
        refused := ha.refused
        isOver := ha.isOver }
  | endTask _ he ht => exact one rfl ((old he).touch (.endTask ht))
  | begin _ he hc =>
      have ha := old he
      exact one rfl (ha.berth rfl (ha.coherent.begin hc) (fun _ => .inr rfl)
        (by simp [hc, Callback.isOver]))
  | yield _ _ he hc hy =>
      have ha := old he
      refine one rfl (ha.berth (by cases hy <;> rfl) (hy.coherent hc ha.coherent)
        (fun _ => .inr hy.hasBegun) (by simp [hc, Callback.isOver]))
  | refuse =>
      exact new rfl {
        coherent := Entry.coherent_refused _
        vacated := by simp [Entry.refused, Entry.isVacated, Cell.empty]
        tripped := by simp [Entry.refused]
        refused := fun _ =>
          .inr ⟨.error .shutdownRejected, List.mem_append_left _ List.mem_cons_self⟩
        isOver := by simp [Entry.refused] }
  | read | write =>
      exact new rfl {
        coherent := Entry.coherent_queued _ _ _
        vacated := by simp [Entry.queued, Entry.isVacated, Cell.empty]
        tripped := by simp [Entry.queued]
        refused := by simp [Entry.queued]
        isOver := by simp [Entry.queued] }

/-- A callback that performs goes on performing, unless the rule ends it. -/
theorem Rule.running (h : Rule s t) (hc : s.Coherent) (hi : s.At i (·.callback = .running)) :
    t.At i (·.callback = .running) ∨ ∃ w, s.work = w :: t.work ∧ w.ends? = some i := by
  obtain ⟨e, he, hr⟩ := hi
  have one {j : Nat} {a b : Entry D} (ha : s.entries[j]? = some a)
      (ht : t.entries = s.entries.set j b)
      (hb : a.callback = .running → b.callback = .running) : t.At i (·.callback = .running) := by
    by_cases hj : j = i
    · subst hj
      obtain rfl := Option.some.inj (he.symm.trans ha)
      exact .of_set he ht (hb hr)
    · exact ⟨e, by rw [ht, List.getElem?_set_ne hj, he], hr⟩
  have new {l : List (Entry D)} (ht : t.entries = s.entries ++ l) :
      t.At i (·.callback = .running) :=
    ⟨e, ht ▸ getElem?_append_of_some he, hr⟩
  cases h with
  | touch h =>
      obtain ⟨f, hf, hef⟩ := h.entry he
      exact .inl ⟨f, hf, hef.running hr⟩
  | prune | pass | collect | close | chain | forward | count | hear | lead | lose =>
      exact .inl ⟨e, he, hr⟩
  | refuse | read | write => exact .inl (new rfl)
  | publish _ ha | flag ha | cancel _ ha | vacate _ ha | spawn _ ha | enrol _ ha =>
      exact .inl (one ha rfl (by exact id))
  | skip _ _ ha hq =>
      obtain ⟨_, _, body, hb⟩ := (hc ha).queued hq
      exact .inl (one ha rfl (by simp [hb]))
  | endTask _ ha => exact .inl (one ha rfl (by simp +contextual [Callback.close]))
  | begin _ ha => exact .inl (one ha rfl (by simp))
  | @yield j a b w rest hw hk ha =>
      by_cases hj : j = i
      · exact .inr ⟨w, hw, hj ▸ hk⟩
      · exact .inl ⟨e, by simp only [List.getElem?_set_ne hj, he], hr⟩

/-- A callback is given something to perform when nothing else is to be done; no other rule leaves
work with which a callback stops. -/
theorem Rule.endings (h : Rule s t) : (∃ done items rest, s.work = done ++ rest ∧
    t.work = items ++ rest ∧ ∀ w ∈ items, w.ends? = none) ∨
    ∃ (i : Nat) (w : Work D) (items : List (Work D)), w.ends? = some i ∧
      t.At i (·.callback = .running) ∧ (∀ v ∈ items, v.ends? = none) ∧ t.work = items ++ [w] := by
  have idle {items : List (Work D)} (h : ∀ w ∈ items, w.isIdle) : ∀ w ∈ items, w.ends? = none :=
    fun w hw => by
      have := h w hw
      cases w <;> simp_all [Work.isIdle, Work.ends?]
  cases h with
  | touch _ hs ht _ hi => exact .inl ⟨_, _, _, hs, ht, idle hi⟩
  | prune | flag | begin => exact .inl ⟨[], [], _, rfl, rfl, by simp⟩
  | @pass w rest hs | @enrol _ _ _ rest hs | @yield _ _ _ _ rest hs =>
      exact .inl ⟨[_], [], _, hs, rfl, by simp⟩
  | publish hs => exact .inl ⟨[_], _, _, hs, rfl, by simp +contextual [Work.ends?]⟩
  | cancel hs _ hc =>
      refine .inl ⟨_, _, _, hs, rfl, fun w hw => ?_⟩
      obtain rfl | hw := List.mem_cons.mp hw
      · rfl
      cases hc with
      | client _ ha => exact idle ha w hw
      | supersede hn =>
          obtain rfl | hw := List.mem_cons.mp hw
          · rfl
          · exact idle hn w hw
      | slot | stop =>
          obtain rfl := List.mem_singleton.mp hw
          rfl
      | each =>
          simp only [List.mem_cons, List.not_mem_nil, or_false] at hw
          obtain rfl | rfl := hw <;> rfl
  | collect hs _ ha | refuse _ hs _ ha =>
      refine .inl ⟨_, _, _, hs, rfl, fun w hw => ?_⟩
      obtain rfl | hw := List.mem_cons.mp hw
      · rfl
      · exact idle ha w hw
  | close =>
      refine .inl ⟨[], _, _, rfl, rfl, fun w hw => ?_⟩
      obtain ⟨v, _, rfl⟩ := List.mem_map.mp hw
      rfl
  | skip hs => exact .inl ⟨[_], [_], _, hs, rfl, by simp [Work.ends?]⟩
  | vacate hs _ _ _ hn =>
      refine .inl ⟨[_], _, _, hs, rfl, fun w hw => ?_⟩
      obtain hw | hw := List.mem_append.mp hw
      · obtain ⟨k, _, rfl⟩ := List.mem_map.mp hw
        rfl
      · exact idle hn w hw
  | spawn hs _ _ _ hl =>
      refine .inl ⟨[_], _, _, hs, rfl, fun w hw => ?_⟩
      obtain ⟨_, _, rfl⟩ | ⟨_, _, rfl⟩ := hl
      · cases hw
      · obtain rfl := List.mem_singleton.mp hw
        rfl
  | @chain x ds rest hs =>
      refine .inl ⟨[_], ds.map (Work.await s.gates.length) ++ [.release s.gates.length], rest, hs,
        by simp, fun w hw => ?_⟩
      simp only [List.mem_append, List.mem_map, List.mem_singleton] at hw
      obtain ⟨d, _, rfl⟩ | rfl := hw <;> rfl
  | forward hs => exact .inl ⟨[_], [_], _, hs, rfl, by simp [Work.ends?]⟩
  | @count g gate rest hs =>
      refine .inl ⟨[_], if gate.remaining = 1 then [.dispatch gate.slot] else [], rest, hs, ?_, ?_⟩
      · by_cases hg : gate.remaining = 1 <;> simp [hg]
      · by_cases hg : gate.remaining = 1 <;> simp [hg, Work.ends?]
  | endTask hs => exact .inl ⟨[_], [_, _], _, hs, rfl, by simp [Work.ends?]⟩
  | hear => exact .inl ⟨[], [_, _], _, rfl, rfl, by simp [Work.ends?]⟩
  | lead hs he hc hi hw => exact .inr ⟨_, _, _, hw, ⟨_, he, hc⟩, idle hi, rfl⟩
  | read _ _ _ hs _ ha =>
      refine .inl ⟨_, _, _, hs, rfl, fun w hw => ?_⟩
      obtain rfl | hw := List.mem_cons.mp hw
      · split <;> rfl
      · exact idle ha w hw
  | write _ _ _ hs _ ha =>
      refine .inl ⟨_, _, _, hs, rfl, fun w hw => ?_⟩
      obtain hw | hw := List.mem_append.mp hw
      · obtain ⟨v, _, rfl⟩ := List.mem_map.mp hw
        rfl
      · obtain rfl | hw := List.mem_cons.mp hw
        · rfl
        · exact idle ha w hw
  | lose hs =>
      refine .inl ⟨[], _, [], hs, (List.append_nil _).symm, ?_⟩
      simp +contextual [Work.ends?]

/-- The record goes on listing admitted requests only. -/
theorem Rule.listed (h : Rule s t) (hs : s.Sound) (hi : i ∈ t.admission.reads ∨
    i ∈ t.admission.writes ∨ t.admission.currentWrite = some i) : t.At i (·.stage ≠ .refused) := by
  have hg : s.Grows t := h.grows hs.isCoherent
  have old (hi : i ∈ s.admission.reads ∨ i ∈ s.admission.writes ∨
      s.admission.currentWrite = some i) : t.At i (·.stage ≠ .refused) :=
    (hs.listed hi).admitted hg
  cases h with
  | touch h => exact old (h.admission ▸ hi)
  | prune =>
      exact old (hi.imp (List.mem_filter.mp · |>.1) (.imp (List.mem_filter.mp · |>.1)
        (Option.filter_eq_some_iff.mp · |>.1)))
  | close => simp at hi
  | read _ _ _ _ _ _ _ _ hr hw hc =>
      rw [hr, hw, hc, List.mem_append, List.mem_singleton] at hi
      obtain (hi | rfl) | hi := hi
      · exact old (.inl hi)
      · exact .of_append rfl (by simp [Entry.queued])
      · exact old (.inr hi)
  | write _ _ _ _ _ _ _ _ hr hw hc =>
      simp only [hr, hw, hc, List.mem_append, List.mem_singleton, Option.some.injEq] at hi
      obtain hi | (hi | rfl) | rfl := hi
      · exact old (.inl hi)
      · exact old (.inr (.inl hi))
      · exact .of_append rfl (by simp [Entry.queued])
      · exact .of_append rfl (by simp [Entry.queued])
  | _ => exact old hi

/-- The rules keep a machine sound. -/
theorem Rule.sound (h : Rule s t) (hs : s.Sound) : t.Sound where
  entry hf := h.sound_entry hs hf
  work hw := h.sound_work hs hw
  listed hi := h.listed hs hi
  performing {w i} hw hi := by
    obtain ⟨done, items, rest, hr, ht, hn⟩ | ⟨j, v, items, hv, hj, hn, ht⟩ := h.endings
    · rw [ht, List.mem_append] at hw
      have hw := hw.resolve_left fun hw => by simp [hn w hw] at hi
      have hws : w ∈ s.work := hr ▸ List.mem_append_right _ hw
      apply (h.running hs.isCoherent (hs.performing hws hi)).resolve_right
      rintro ⟨v, hv, hvi⟩
      have hone := hs.single
      have : w ∈ (t.work.filter (·.ends?.isSome)) :=
        List.mem_filter.mpr ⟨ht ▸ List.mem_append_right _ hw, by simp [hi]⟩
      have := List.length_pos_of_mem this
      rw [hv, List.filter_cons_of_pos (by simp [hvi]), List.length_cons] at hone
      omega
    · rw [ht, List.mem_append, List.mem_singleton] at hw
      obtain hw | rfl := hw
      · simp [hn w hw] at hi
      · obtain rfl := Option.some.inj (hi.symm.trans hv)
        exact hj
  single := by
    have hone := hs.single
    obtain ⟨done, items, rest, hr, ht, hn⟩ | ⟨j, v, items, hv, hj, hn, ht⟩ := h.endings
    · rw [hr, List.filter_append, List.length_append] at hone
      rw [ht, List.filter_append, List.filter_eq_nil_iff.mpr (by simp +contextual [hn])]
      simp only [List.nil_append]
      omega
    · rw [ht, List.filter_append, List.filter_eq_nil_iff.mpr (by simp +contextual [hn])]
      simp [hv]
  starts i := by
    have hi := hs.starts i
    obtain ⟨ht, hb⟩ | ⟨j, b, e, body, -, he, hc, rfl⟩ := h.begun hs.isCoherent
    · rw [ht, hi]
      have hg : s.Grows t := h.grows hs.isCoherent
      have : t.hasBegun i = s.hasBegun i := by
        unfold hasBegun
        cases he : s.entries[i]? with
        | some e =>
            obtain ⟨f, hf, _⟩ := hg.entry he
            simp [hf, hb he hf]
        | none =>
            cases hf : t.entries[i]? with
            | some f => exact h.hasBegun_new he hf
            | none => rfl
      rw [this]
    · have hl := (List.getElem?_eq_some_iff.mp he).1
      change (j :: s.starts).count i = _
      rw [List.count_cons, hi]
      by_cases hij : j = i
      · subst hij
        simp only [hasBegun, he, hc, List.getElem?_set_self hl]
        simp [Callback.hasBegun]
      · simp only [hasBegun, List.getElem?_set_ne hij, beq_eq_false_iff_ne.mpr hij]
        rfl

/-- A manager that nothing was submitted to is sound. -/
theorem sound_start (permits : Option Permits) : (start permits : Machine D).Sound := by
  constructor <;> simp [start, starts, hasBegun]

end Machine

end RequestScheduler
