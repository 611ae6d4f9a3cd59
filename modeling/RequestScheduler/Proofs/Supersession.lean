import RequestScheduler.Proofs.Record

/-!
# Supersession

A write supersedes the requests before it: each of them has vacated, or its cancellation was
requested, or is about to be (`Superseding`). By the time the gate of the write is made, the reads
among them have left the queue (`Prepared`). Once admission is closed, whoever is queued is going to
leave the queue (`Closing`).
-/

namespace RequestScheduler

namespace Machine

variable {D : Type} {s t : Machine D} {d w x : Nat}

/-- The request has vacated, or its cancellation was requested, or a later write is about to
request it. -/
def Superseded (s : Machine D) (x : Nat) : Prop :=
  s.vacated x = true ∨ (s.At x (·.request.tripped = true) ∧ s.Secured x) ∨
    ∃ w, Work.supersede x w ∈ s.work

theorem Rule.superseded (h : Rule s t) (hs : s.Sound) (hx : s.Superseded x) : t.Superseded x := by
  have hg : s.Grows t := h.grows hs.isCoherent
  obtain hx | ⟨hx, hsec⟩ | ⟨w, hw⟩ := hx
  · exact .inl (vacated_grow hg hx)
  · exact .inr (.inl ⟨hx.mono hg (·.tripped), h.secured hs hsec⟩)
  · obtain hw | ⟨ht, hsec, _⟩ := h.spent hw
    · exact .inr (.inr ⟨w, hw⟩)
    · exact .inr (.inl ⟨ht, .inr hsec⟩)

/-- A write that is new was admitted by the rule: it supersedes the recorded reads and the current
write, and its gate is made after that. -/
theorem Rule.admits_write (h : Rule s t) (hs : s.Sound) (hw : t.Accepted .write w)
    (hn : s.entries.length ≤ w) :
    w = s.entries.length ∧ s.admission.closed = false ∧ ∃ rest, t.work =
      (s.admission.reads ++ s.admission.currentWrite.toList).map (Work.supersede · w) ++
        .chain w s.admission.reads :: rest := by
  have hg : s.Grows t := h.grows hs.isCoherent
  have hlt := hw.lt
  have hnew {f : Entry D} (ht : t.entries = s.entries ++ [f]) : w = s.entries.length := by
    apply (accepted_cases hg ht hw).resolve_left
    intro h
    have := h.lt
    omega
  cases h with
  | touch h =>
      have := h.length
      omega
  | refuse =>
      obtain rfl := hnew rfl
      exact absurd rfl (hw.of_entry List.getElem?_concat_length).2
  | read =>
      obtain rfl := hnew rfl
      cases (accepted_append rfl (by simp [Entry.queued])).mp hw
  | write _ _ _ _ _ _ hc =>
      obtain rfl := hnew rfl
      exact ⟨rfl, hc, _, List.append_assoc ..⟩
  | _ =>
      simp at hlt
      omega

/-- Every request admitted before a write is superseded by then. -/
def Superseding (s : Machine D) : Prop :=
  ∀ {kind : Kind} {x w : Nat}, s.Accepted .write w → s.Accepted kind x → x < w → s.Superseded x

/-- The rules keep up supersession. -/
theorem Rule.superseding (h : Rule s t) (hs : s.Sound) (hr : s.Recorded) (hp : s.Superseding) :
    t.Superseding := by
  have hg : s.Grows t := h.grows hs.isCoherent
  intro kind x w hw hx hxw
  have old (hx : s.Superseded x) : t.Superseded x := h.superseded hs hx
  by_cases hwl : w < s.entries.length
  · exact old (hp ((accepted_iff hg hwl).mp hw) ((accepted_iff hg (by omega)).mp hx) hxw)
  -- The write is new.
  obtain ⟨rfl, hc, rest, hwork⟩ := h.admits_write hs hw (by omega)
  have hx : s.Accepted kind x := (accepted_iff hg hxw).mp hx
  by_cases hv : s.vacated x = true
  · exact .inl (vacated_grow hg hv)
  have hv : s.vacated x = false := by simpa using hv
  have superseded (hm : x ∈ s.admission.reads ++ s.admission.currentWrite.toList) :
      Work.supersede x s.entries.length ∈ t.work := by
    rw [hwork]
    exact List.mem_append_left _ (List.mem_map.mpr ⟨x, hm, rfl⟩)
  cases kind with
  | read => exact .inr (.inr ⟨_, superseded (List.mem_append_left _ (hr.mem_reads hc hx hv))⟩)
  | write =>
      obtain ⟨u, hu, hxu⟩ := exists_lastWriteBefore hx hxw
      by_cases hxu' : x = u
      · subst hxu'
        exact .inr (.inr ⟨_, superseded (List.mem_append_right _
          (Option.mem_toList.mpr (hr.current_eq hc hu hv)))⟩)
      · exact old (hp hu.write hx (by omega))

/-- The work of making the gate of `x` finds `d` out of the queue: `d` has left it, or is taken out
of it by work that comes before. -/
def Prepares (s : Machine D) (x d : Nat) : Prop :=
  s.At d (·.stage ≠ .queued) ∨ ∃ (w : Work D) (ds : List Nat),
    (w = .supersede d x ∨ w = .skip d) ∧ [w, .chain x ds].Sublist s.work

theorem Rule.prepares (h : Rule s t) (hs : s.Sound) (hd : s.At d fun _ => True)
    (hx : s.Prepares x d) : t.Prepares x d := by
  have hg : s.Grows t := h.grows hs.isCoherent
  obtain hx | ⟨w, ds, hw, hx⟩ := hx
  · exact .inl (hx.mono hg fun he => mt he.queued)
  obtain ⟨done, items, rest, hsw, htw, hspent, hshort⟩ := h.spends
  rw [hsw, List.sublist_append_iff] at hx
  obtain ⟨l, r, hlr, hl, hr⟩ := hx
  -- None of the two was done, or the first, or both.
  obtain _ | ⟨a, _ | ⟨b, l⟩⟩ := l
  · obtain rfl := hlr
    exact .inr ⟨w, ds, hw, htw ▸ hr.trans (List.sublist_append_right items rest)⟩
  · obtain ⟨rfl, rfl⟩ := List.cons.inj hlr
    have hspent := hspent _ (hl.subset List.mem_cons_self)
    obtain rfl | rfl := hw
    · have hskip : Work.skip d ∈ items := hspent.2.2
      refine .inr ⟨.skip d, ds, .inr rfl, htw ▸ ?_⟩
      exact (List.singleton_sublist.mpr hskip).append hr
    · obtain ⟨f, hf, _⟩ := hd.mono hg fun _ => id
      exact .inl ⟨f, hf, hspent f hf⟩
  · simp only [List.cons_append, List.cons.injEq] at hlr
    obtain ⟨_, rfl, _⟩ := hlr
    obtain hshort | hidle := hshort
    · have := hl.length_le
      simp only [List.length_cons] at this
      omega
    · have := hidle _ (hl.subset (List.mem_cons_of_mem _ List.mem_cons_self))
      simp [Work.isIdle] at this

/-- No read before a write is queued by the time the gate of the write is made. -/
def Prepared (s : Machine D) : Prop :=
  ∀ {x d : Nat}, s.Accepted .write x → s.Accepted .read d → d < x → s.Prepares x d

/-- The rules keep up that preparation. -/
theorem Rule.prepared (h : Rule s t) (hs : s.Sound) (hr : s.Recorded) (hp : s.Prepared) :
    t.Prepared := by
  have hg : s.Grows t := h.grows hs.isCoherent
  intro x d hx hd hdx
  by_cases hxl : x < s.entries.length
  · have hd : s.Accepted .read d := (accepted_iff hg (by omega)).mp hd
    have hx : s.Accepted .write x := (accepted_iff hg hxl).mp hx
    exact h.prepares hs (hd.imp fun _ _ => trivial) (hp hx hd hdx)
  -- The write is new.
  obtain ⟨rfl, hc, rest, hwork⟩ := h.admits_write hs hx (by omega)
  have hd : s.Accepted .read d := (accepted_iff hg hdx).mp hd
  by_cases hv : s.vacated d = true
  · obtain ⟨e, he, hv⟩ := vacated_eq_true_iff.mp hv
    have hq : e.stage ≠ .queued := by
      intro hq
      simp [((hs.entry he).coherent.queued hq).2.1] at hv
    exact .inl (At.mono ⟨e, he, hq⟩ hg fun he => mt he.queued)
  · have hmem := hr.mem_reads hc hd (by simpa using hv)
    have hfirst : [Work.supersede d s.entries.length].Sublist
        ((s.admission.reads ++ s.admission.currentWrite.toList).map
          (Work.supersede (D := D) · s.entries.length)) :=
      List.singleton_sublist.mpr (List.mem_map.mpr ⟨d, List.mem_append_left _ hmem, rfl⟩)
    refine .inr ⟨_, s.admission.reads, .inl rfl, ?_⟩
    rw [hwork]
    exact hfirst.append (List.singleton_sublist.mpr List.mem_cons_self)

/-- Once admission is closed, whoever is queued is going to be taken out of the queue. -/
def Closing (s : Machine D) : Prop := s.admission.closed = true →
  ∀ {x : Nat}, s.At x (·.stage = .queued) → Work.cancelSlot x ∈ s.work ∨ Work.skip x ∈ s.work

/-- The rules keep up the end of admission. -/
theorem Rule.closing (h : Rule s t) (hs : s.Sound) (hr : s.Recorded) (hp : s.Closing) :
    t.Closing := by
  have hg : s.Grows t := h.grows hs.isCoherent
  -- Nobody joins the queue but by admission.
  have queued {x : Nat} (hl : t.entries.length = s.entries.length ∨
      ∃ kind, t.entries = s.entries ++ [.refused kind]) (hx : t.At x (·.stage = .queued)) :
      s.At x (·.stage = .queued) := by
    obtain ⟨f, hf, hq⟩ := hx
    cases he : s.entries[x]? with
    | some e =>
        obtain ⟨g, hg, heg⟩ := hg.entry he
        obtain rfl := Option.some.inj (hf.symm.trans hg)
        exact ⟨e, he, heg.queued hq⟩
    | none =>
        obtain hl | ⟨kind, ht⟩ := hl
        · have := (List.getElem?_eq_some_iff.mp hf).1
          rw [List.getElem?_eq_none_iff] at he
          omega
        · obtain ⟨_, rfl⟩ | hf := getElem?_concat_cases (ht ▸ hf)
          · cases hq
          · cases he.symm.trans hf
  have old (hc : s.admission.closed = true) {x : Nat} (hx : s.At x (·.stage = .queued)) :
      (∀ f, t.entries[x]? = some f → f.stage ≠ .queued) ∨
        Work.cancelSlot x ∈ t.work ∨ Work.skip x ∈ t.work := by
    obtain hw | hw := hp hc hx
    · obtain hw | hw := h.spent hw
      · exact .inr (.inl hw)
      · exact .inr (.inr hw.2.2)
    · obtain hw | hw := h.spent hw
      · exact .inr (.inr hw)
      · exact .inl hw
  have kept (hl : t.entries.length = s.entries.length ∨
      ∃ kind, t.entries = s.entries ++ [.refused kind])
      (hc : t.admission.closed = true → s.admission.closed = true) : t.Closing := by
    intro htc x hx
    apply (old (hc htc) (queued hl hx)).resolve_left
    intro hn
    obtain ⟨f, hf, hq⟩ := hx
    exact hn f hf hq
  cases h with
  | touch h => exact kept (.inl h.length) (h.admission ▸ id)
  | close =>
      rintro - x ⟨e, he, hq⟩
      have hc := (hs.entry he).coherent
      have hstage : e.stage ≠ .refused := by simp [hq]
      have hv : s.vacated x = false := by
        rw [vacated, he]
        exact (hc.queued hq).2.1
      cases hclosed : s.admission.closed with
      | true =>
          refine (hp hclosed ⟨e, he, hq⟩).imp (List.mem_append_right _) (List.mem_append_right _)
      | false =>
          refine .inl (List.mem_append_left _ (List.mem_map.mpr ⟨x, ?_, rfl⟩))
          cases hk : e.kind with
          | read => exact List.mem_append_right _ (hr.mem_reads hclosed ⟨e, he, hk, hstage⟩ hv)
          | write => exact List.mem_append_left _ (hr.mem_writes hclosed ⟨e, he, hk, hstage⟩ hv)
  | refuse => exact kept (.inr ⟨_, rfl⟩) id
  | read _ _ _ _ _ _ _ hac | write _ _ _ _ _ _ _ hac => exact fun hc => by simp [hac] at hc
  | _ => exact kept (.inl (by simp)) id

end Machine

end RequestScheduler
