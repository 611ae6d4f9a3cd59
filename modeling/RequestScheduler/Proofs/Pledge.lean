import RequestScheduler.Proofs.Gate
import RequestScheduler.Proofs.Upkeep

/-!
# Releases that are owed to gates

A gate counts how often it is still to be released. Whatever is going to release it is a work item
or a continuation that a cell keeps, and every operation hands that on: a registration comes from
work to a cell, a settlement from a cell to work, and the release itself takes one off the count
(`Machine.Transfers`). Operations that reach no cell and no gate leave everything as it is
(`Machine.Idles`). Nothing here depends on what else the threads of a crew do.
-/

namespace RequestScheduler

variable {D : Type}

/-- How often a work item is going to release the gate. -/
def Work.due (g : Nat) (w : Work D) : Nat := if w.gate? = some g then 1 else 0

/-- How often the work is going to release the gate. -/
def dues (g : Nat) (l : List (Work D)) : Nat := total (l.map (Work.due g))

/-- How often the continuations that a request and its slot keep are going to release the gate. -/
def Entry.owed (g : Nat) (e : Entry D) : Nat :=
  dues g (e.vacancy.continuations.map .run) + dues g (e.request.cell.continuations.map .run)

section Dues

variable {g h : Nat} {w : Work D} {l l₁ l₂ : List (Work D)}

@[simp] theorem dues_nil : dues g ([] : List (Work D)) = 0 := rfl

@[simp] theorem dues_cons : dues g (w :: l) = w.due g + dues g l := rfl

@[simp] theorem dues_append : dues g (l₁ ++ l₂) = dues g l₁ + dues g l₂ := by simp [dues]

theorem Work.due_eq_zero (hw : w.gate? = none) : w.due g = 0 := by simp [due, hw]

@[simp] theorem Work.due_release : (release h : Work D).due g = if h = g then 1 else 0 := by
  simp [due, gate?]

@[simp] theorem Work.due_await (i : Nat) : (await h i : Work D).due g = if h = g then 1 else 0 := by
  simp [due, gate?]

@[simp] theorem Work.due_run_release :
    (run (.release h) : Work D).due g = if h = g then 1 else 0 := by
  simp [due, gate?, Continuation.gate?]

theorem dues_eq_zero (hl : ∀ w ∈ l, w.gate? = none) : dues g l = 0 := by
  induction l with
  | nil => rfl
  | cons w l ih =>
      obtain ⟨hw, hl⟩ := List.forall_mem_cons.mp hl
      rw [dues_cons, Work.due_eq_zero hw, ih hl]

theorem dues_await (ds : List Nat) :
    dues g (ds.map (Work.await h) : List (Work D)) = if h = g then ds.length else 0 := by
  induction ds with
  | nil => simp
  | cons i ds ih =>
      rw [List.map_cons, dues_cons, ih, Work.due_await, List.length_cons]
      split <;> omega

theorem dues_pos (hw : w ∈ l) (hg : w.gate? = some g) : 0 < dues g l := by
  obtain ⟨a, b, rfl⟩ := List.append_of_mem hw
  simp only [dues_append, dues_cons, Work.due, hg, if_true]
  omega

theorem dues_flatten (threads : List (List (Work D))) :
    dues g threads.flatten = total (threads.map (dues g)) := by
  induction threads with
  | nil => rfl
  | cons l threads ih => rw [List.flatten_cons, dues_append, ih, List.map_cons, total_cons]

end Dues

namespace Machine

/-- How often the continuations that cells keep are going to release the gate. -/
def owed (s : Machine D) (g : Nat) : Nat := total (s.entries.map (Entry.owed g))

/-- The slot keeps a release of the gate for when it vacates. -/
def Owes (s : Machine D) (g i : Nat) : Prop := s.At i fun e => .release g ∈ e.vacancy.continuations

/-- The request keeps a release of the gate for when it settles. -/
def Strays (s : Machine D) (g i : Nat) : Prop :=
  s.At i fun e => .release g ∈ e.request.cell.continuations

/-- Gates and vacancies are as they were, and no release was registered or set off. -/
structure Undisturbed (s t : Machine D) : Prop where
  gates : t.gates = s.gates
  owed : ∀ g, t.owed g = s.owed g
  entry : ∀ {i : Nat} {e : Entry D}, s.entries[i]? = some e →
    ∃ f, t.entries[i]? = some f ∧ f.vacancy = e.vacancy
  owes : ∀ {g i : Nat}, t.Owes g i → s.Owes g i
  strays : ∀ {g i : Nat}, t.Strays g i → s.Strays g i

/-- What is left to be done has nothing to do with gates, and everything that has is as it was. -/
def Idles (s t : Machine D) : Prop :=
  ∃ items, t.work = items ++ s.work ∧ (∀ w ∈ items, w.gate? = none) ∧ s.Undisturbed t

/-- Every release that was owed still is, or the count of its gate has gone down by it. -/
structure Transfers (done items : List (Work D)) (s t : Machine D) : Prop where
  work : t.work = items ++ s.work
  count : ∀ g, dues g items + t.owed g + s.remaining g = dues g done + s.owed g + t.remaining g
  /-- Only a gate that is new comes to wait for slots. -/
  await : ∀ {g i : Nat}, .await g i ∈ items → s.gates.length ≤ g
  gate : ∀ {g : Nat} {a : Gate}, s.gates[g]? = some a →
    ∃ b, t.gates[g]? = some b ∧ b.slot = a.slot ∧ (.release g ∉ done → b.remaining = a.remaining)
  owes : ∀ {g i : Nat}, t.Owes g i → s.Owes g i ∨ .await g i ∈ done
  strays : ∀ {g i : Nat}, t.Strays g i → s.Strays g i

variable {s t u : Machine D} {i g : Nat} {e f : Entry D} {w : Work D} {done l after : List (Work D)}

theorem remaining_congr (h : t.gates = s.gates) : t.remaining g = s.remaining g := by
  rw [remaining, h, remaining]

theorem Undisturbed.remaining (h : s.Undisturbed t) : t.remaining g = s.remaining g :=
  remaining_congr h.gates

/-- The sum changes by what the entry that was replaced owes more or less than before. -/
theorem owed_set (he : s.entries[i]? = some e) (ht : t.entries = s.entries.set i f) :
    t.owed g + e.owed g = s.owed g + f.owed g := by
  rw [owed, ht, owed]
  exact total_map_set he

theorem owed_congr (h : t.entries = s.entries) : t.owed g = s.owed g := by rw [owed, h, owed]

theorem owes_congr (h : t.entries = s.entries) : t.Owes g i ↔ s.Owes g i := At.congr h

theorem strays_congr (h : t.entries = s.entries) : t.Strays g i ↔ s.Strays g i := At.congr h

theorem Undisturbed.same (he : t.entries = s.entries) (hg : t.gates = s.gates) :
    s.Undisturbed t :=
  ⟨hg, fun _ => owed_congr he, fun h => ⟨_, he ▸ h, rfl⟩, (owes_congr he).mp, (strays_congr he).mp⟩

theorem Undisturbed.trans (h₁ : s.Undisturbed t) (h₂ : t.Undisturbed u) : s.Undisturbed u where
  gates := h₂.gates.trans h₁.gates
  owed g := (h₂.owed g).trans (h₁.owed g)
  entry he := by
    obtain ⟨f, hf, hef⟩ := h₁.entry he
    obtain ⟨a, ha, hfa⟩ := h₂.entry hf
    exact ⟨a, ha, hfa.trans hef⟩
  owes h := h₁.owes (h₂.owes h)
  strays h := h₁.strays (h₂.strays h)

/-- What an entry shows after one was replaced it showed before, if the one that came does not show
it or the one that went did. -/
theorem at_of_set {p : Entry D → Prop} {j : Nat} (he : s.entries[i]? = some e)
    (ht : t.entries = s.entries.set i f) (h : t.At j p) (hp : p f → p e) : s.At j p := by
  obtain ⟨a, ha, hpa⟩ := h
  rw [ht] at ha
  obtain ⟨rfl, rfl⟩ | ⟨_, ha⟩ := getElem?_set_cases ha
  · exact ⟨e, he, hp hpa⟩
  · exact ⟨a, ha, hpa⟩

/-- One entry is changed, and the continuations of its cells owe what they did. -/
theorem Undisturbed.set (he : s.entries[i]? = some e) (ht : t.entries = s.entries.set i f)
    (hg : t.gates = s.gates) (hv : f.vacancy = e.vacancy) (ho : ∀ g, f.owed g = e.owed g)
    (hr : ∀ g, .release g ∈ f.request.cell.continuations →
      .release g ∈ e.request.cell.continuations) :
    s.Undisturbed t where
  gates := hg
  owed g := by
    have hset := owed_set (g := g) he ht
    have := ho g
    omega
  entry {j a} hj := by
    rw [ht]
    by_cases hij : i = j
    · subst hij
      obtain rfl := Option.some.inj (he.symm.trans hj)
      exact ⟨f, getElem?_set_of_some he, hv⟩
    · exact ⟨a, by rw [List.getElem?_set_ne hij, hj], rfl⟩
  owes h := at_of_set he ht h fun h => hv ▸ h
  strays h := at_of_set he ht h (hr _)

/-- One entry is changed, but neither its vacancy nor the continuations of its request. -/
theorem Undisturbed.put (he : s.entries[i]? = some e) (ht : t.entries = s.entries.set i f)
    (hg : t.gates = s.gates) (hv : f.vacancy = e.vacancy)
    (hr : f.request.cell.continuations = e.request.cell.continuations) : s.Undisturbed t :=
  .set he ht hg hv (fun g => by rw [Entry.owed, hv, hr, Entry.owed]) fun _ h => hr ▸ h

/-- An entry comes in at the end whose cells keep no release. -/
theorem Undisturbed.append (ht : t.entries = s.entries ++ [f]) (hg : t.gates = s.gates)
    (hf : ∀ g, f.owed g = 0) (hv : ∀ g, .release g ∉ f.vacancy.continuations)
    (hr : ∀ g, .release g ∉ f.request.cell.continuations) : s.Undisturbed t := by
  have before {p : Entry D → Prop} {j : Nat} (h : t.At j p) (hp : ¬p f) : s.At j p := by
    obtain ⟨a, ha, hpa⟩ := h
    obtain ⟨_, rfl⟩ | ha := getElem?_concat_cases (ht ▸ ha)
    · exact absurd hpa hp
    · exact ⟨a, ha, hpa⟩
  exact ⟨hg, fun g => by simp [Machine.owed, ht, hf g],
    fun hj => ⟨_, ht ▸ getElem?_append_of_some hj, rfl⟩,
    fun h => before h (hv _), fun h => before h (hr _)⟩

theorem Undisturbed.owes_of (h : s.Undisturbed t) (hk : s.Owes g i) : t.Owes g i := by
  obtain ⟨e, he, hm⟩ := hk
  obtain ⟨f, hf, hv⟩ := h.entry he
  refine ⟨f, hf, ?_⟩
  show .release g ∈ f.vacancy.continuations
  rwa [hv]

theorem Undisturbed.vacated (h : s.Undisturbed t) (hv : s.vacated i = true) :
    t.vacated i = true := by
  obtain ⟨e, he, hve⟩ := vacated_eq_true_iff.mp hv
  obtain ⟨f, hf, hef⟩ := h.entry he
  exact vacated_eq_true_iff.mpr ⟨f, hf, (congrArg Cell.isSettled hef).trans hve⟩

theorem Idles.nothing (hw : t.work = s.work) (h : s.Undisturbed t) : s.Idles t :=
  ⟨[], hw, List.forall_mem_nil _, h⟩

theorem Idles.refl (s : Machine D) : s.Idles s := .nothing rfl (.same rfl rfl)

/-- Nothing was changed that gates depend on. -/
theorem Idles.quiet (hw : t.work = s.work) (he : t.entries = s.entries) (hg : t.gates = s.gates) :
    s.Idles t := .nothing hw (.same he hg)

theorem Undisturbed.trans_idles (h : s.Undisturbed u) (hw : u.work = s.work) (hi : u.Idles t) :
    s.Idles t := by
  obtain ⟨items, ht, hn, hu⟩ := hi
  exact ⟨items, hw ▸ ht, hn, h.trans hu⟩

theorem Idles.transfers (h : s.Idles t) (hd : ∀ g, dues g done = 0) :
    ∃ items, Transfers done items s t := by
  obtain ⟨items, hw, hn, hu⟩ := h
  refine ⟨items, {
    work := hw
    count := fun g => by
      have := hu.owed g
      rw [hu.remaining, dues_eq_zero hn, hd]
      omega
    await := fun hm => nomatch hn _ hm
    gate := fun hg => ⟨_, hu.gates ▸ hg, rfl, fun _ => rfl⟩
    owes := fun h => .inl (hu.owes h)
    strays := hu.strays }⟩

/-! ### What reaches no gate -/

theorem undisturbed_trip (i : Nat) (s : Machine D) : s.Undisturbed (s.trip i) := by
  unfold trip
  split
  · exact .same rfl rfl
  · rename_i e he
    exact .put he rfl rfl rfl rfl

theorem undisturbed_putPermit (s : Machine D) : s.Undisturbed s.putPermit := by
  unfold putPermit
  split
  · exact .same rfl rfl
  split
  · exact .same rfl rfl
  · unfold hand
    dsimp only
    split
    · exact .same rfl rfl
    rename_i e he
    split
    · exact .put he rfl rfl rfl rfl
    · exact .same rfl rfl

theorem idles_cancelThen (h : s.Undisturbed u) (hw : u.work = s.work)
    (ha : ∀ w ∈ after, w.gate? = none) : s.Idles (u.cancelThen i after) := by
  have htrip := h.trans (undisturbed_trip i u)
  refine ⟨.settle i (.error .cancelled) :: after, by rw [work_cancelThen, hw],
    List.forall_mem_cons.mpr ⟨rfl, ha⟩, htrip.gates, htrip.owed, htrip.entry, htrip.owes,
    htrip.strays⟩

theorem idles_skip : s.Idles (s.skip i) := by
  unfold skip
  split
  · exact .refl s
  rename_i e he
  split
  · exact ⟨[.openVacancy i], rfl, List.forall_mem_singleton.mpr rfl, .put he rfl rfl rfl rfl⟩
  · exact .refl s

theorem idles_endTask : s.Idles (s.endTask i) := by
  unfold endTask
  split
  · exact .refl s
  rename_i e he
  have hput : s.Undisturbed ({ s with ready := s.ready.remove i }.put i
      { e with task := .ended, callback := e.callback.close }) := .put he rfl rfl rfl rfl
  have last {u : Machine D} (h : s.Undisturbed u) (hw : u.work = s.work) :
      s.Idles (u.push [.settle i (.error .cancelled), .vacate i]) :=
    ⟨[.settle i (.error .cancelled), .vacate i], by simp [push, hw],
      by simp [Work.gate?], h.gates, h.owed, h.entry, h.owes, h.strays⟩
  dsimp only
  split
  · exact last (hput.trans (undisturbed_putPermit _)) (work_putPermit _)
  · exact last (hput.trans (undisturbed_putPermit _)) (work_putPermit _)
  · exact last ⟨hput.gates, hput.owed, hput.entry, hput.owes, hput.strays⟩ rfl
  · exact last hput rfl

theorem idles_dispatch : s.Idles (s.dispatch i) := by
  unfold dispatch
  split
  · exact .refl s
  rename_i e he
  split
  · split
    · exact idles_skip
    split
    · exact .nothing rfl (.put he rfl rfl rfl rfl)
    · exact ⟨[.endTask i], rfl, List.forall_mem_singleton.mpr rfl, .put he rfl rfl rfl rfl⟩
  · exact .refl s

theorem idles_submit {kind : Kind} {body : Body D} (ha : ∀ w ∈ after, w.gate? = none) :
    s.Idles (s.submit kind body after) := by
  have queued {t : Machine D} {l : List (Work D)} {kind : Kind} {seq : UInt64} {job : Job D}
      (hw : t.work = l ++ s.work) (hi : ∀ w ∈ l, w.gate? = none)
      (ht : t.entries = s.entries ++ [.queued kind seq job]) (hg : t.gates = s.gates) : s.Idles t :=
    ⟨l, hw, hi, .append ht hg (fun _ => rfl) (fun _ => List.not_mem_nil) fun _ => List.not_mem_nil⟩
  unfold submit
  dsimp only
  split
  · refine ⟨.settle _ (.error .shutdownRejected) :: .handOver _ :: after, rfl, ?_,
      .append rfl rfl (fun _ => rfl) (fun _ => List.not_mem_nil) fun _ => List.not_mem_nil⟩
    exact List.forall_mem_cons.mpr ⟨rfl, List.forall_mem_cons.mpr ⟨rfl, ha⟩⟩
  cases kind with
  | read =>
      dsimp only
      split
      · refine queued (l := .dispatch _ :: .note _ :: .handOver _ :: after) rfl ?_ rfl rfl
        exact List.forall_mem_cons.mpr ⟨rfl, List.forall_mem_cons.mpr
          ⟨rfl, List.forall_mem_cons.mpr ⟨rfl, ha⟩⟩⟩
      · refine queued (l := .chain _ [_] :: .handOver _ :: after) rfl ?_ rfl rfl
        exact List.forall_mem_cons.mpr ⟨rfl, List.forall_mem_cons.mpr ⟨rfl, ha⟩⟩
  | write =>
      refine queued (l := _ ++ .chain _ _ :: .handOver _ :: after) rfl (fun w hw => ?_) rfl rfl
      simp only [List.mem_append, List.mem_map, List.mem_cons] at hw
      obtain ⟨v, _, rfl⟩ | rfl | rfl | hw := hw
      · rfl
      · rfl
      · rfl
      · exact ha w hw

theorem idles_cancelAll (ha : ∀ w ∈ after, w.gate? = none) : s.Idles (s.cancelAll after) :=
  ⟨.cancelEach _ _ 0 :: after, rfl, List.forall_mem_cons.mpr ⟨rfl, ha⟩, .same rfl rfl⟩

/-- A client's continuation releases no gate. -/
theorem owed_register_react {tag : D} {effects : List (Effect D)} (e : Entry D) (g : Nat) :
    Entry.owed g { e with request := e.request.register (.react tag effects) } = e.owed g := by
  simp only [Entry.owed, Request.register]
  cases e.request.cell with
  | settled => rfl
  | pending =>
      have : (Work.run (.react tag effects)).due g = 0 := Work.due_eq_zero rfl
      simp [Cell.register, Cell.continuations, this]

theorem idles_onSettled {tag : D} {effects : List (Effect D)} (ha : ∀ w ∈ after, w.gate? = none) :
    s.Idles (s.onSettled i tag effects after) := by
  unfold onSettled
  split
  · exact ⟨after, rfl, ha, .same rfl rfl⟩
  rename_i e he
  split
  · exact ⟨.run (.react tag effects) :: after, rfl, List.forall_mem_cons.mpr ⟨rfl, ha⟩,
      .same rfl rfl⟩
  · refine ⟨after, rfl, ha, .set he rfl rfl rfl (owed_register_react e) fun g hm => ?_⟩
    cases hc : e.request.cell with
    | settled => simp [Request.register, hc, Cell.register, Cell.continuations] at hm
    | pending => simpa [Request.register, hc, Cell.register, Cell.continuations] using hm

theorem idles_perform (a : Effect D) : s.Idles (s.perform a) := by
  have one {w : Work D} (hw : w.gate? = none) : ∀ v ∈ [w], v.gate? = none :=
    List.forall_mem_singleton.mpr hw
  cases a with
  | set | add | mul | log | status | snapshot => exact .quiet rfl rfl rfl
  | submit => exact idles_submit (one rfl)
  | cancel =>
      unfold perform
      dsimp only
      split
      · exact .quiet rfl rfl rfl
      · exact idles_cancelThen (.same rfl rfl) rfl (one rfl)
  | cancelAll => exact idles_cancelAll (one rfl)
  | onSettled =>
      unfold perform
      dsimp only
      split
      · exact .quiet rfl rfl rfl
      · exact idles_onSettled (one rfl)

theorem idles_modify {p : Entry D → Entry D} (hv : ∀ e, (p e).vacancy = e.vacancy)
    (hr : ∀ e, (p e).request.cell.continuations = e.request.cell.continuations) :
    s.Idles (s.modify i p) := by
  unfold modify
  split
  · exact .refl s
  · rename_i e he
    exact .nothing rfl (.put he rfl rfl (hv e) (hr e))

/-! ### Work -/

/-- The continuations of a cell that settles become work. -/
theorem transfers_of_open (hd : ∀ g, dues g done = 0) (he : s.entries[i]? = some e)
    (ht : t.entries = s.entries.set i f) (hg : t.gates = s.gates) (hw : t.work = l ++ s.work)
    (hl : ∀ g, f.owed g + dues g l = e.owed g) (hn : ∀ {g j : Nat}, .await g j ∉ l)
    (hv : ∀ g, .release g ∈ f.vacancy.continuations → .release g ∈ e.vacancy.continuations)
    (hr : ∀ g, .release g ∈ f.request.cell.continuations →
      .release g ∈ e.request.cell.continuations) : Transfers done l s t where
  work := hw
  count g := by
    have hset := owed_set (g := g) he ht
    have := hl g
    rw [remaining_congr hg, hd]
    omega
  await hm := absurd hm hn
  gate h := ⟨_, hg ▸ h, rfl, fun _ => rfl⟩
  owes h := .inl (at_of_set he ht h (hv _))
  strays h := at_of_set he ht h (hr _)

theorem transfers_openVacancy (hd : ∀ g, dues g done = 0) (he : t.entries[i]? = some e)
    (h : s.Undisturbed t) (hw : t.work = s.work) (ha : ∀ w ∈ after, w.gate? = none) :
    ∃ items, Transfers done items s (t.openVacancy i after) := by
  simp only [openVacancy, he]
  split
  · exact (Idles.nothing hw h).transfers hd
  · have hset : Transfers done (e.vacancy.continuations.map .run ++ after) t { t with
        entries := t.entries.set i { e with vacancy := e.vacancy.settle () }
        work := e.vacancy.continuations.map .run ++ after ++ t.work } := by
      refine transfers_of_open hd he rfl rfl rfl (fun g => ?_) (fun hm => ?_) (fun g hm => ?_)
        fun g hm => hm
      · simp only [Entry.owed, Cell.continuations_settle, List.map_nil, dues_nil, dues_append,
          dues_eq_zero ha]
        omega
      · obtain hm | hm := List.mem_append.mp hm
        · simp at hm
        · cases ha _ hm
      · simp at hm
    refine ⟨_, hset.work.trans (by rw [hw]), fun g => ?_, fun hm => h.gates ▸ hset.await hm,
      fun hg => hset.gate (h.gates ▸ hg), fun ho => (hset.owes ho).imp_left h.owes,
      fun hs => h.strays (hset.strays hs)⟩
    have := hset.count g
    rwa [h.owed, h.remaining] at this

/-- Work comes in the place of other work that is going to release the same gates. -/
theorem transfers_of_dues (he : t.entries = s.entries) (hg : t.gates = s.gates)
    (hw : t.work = l ++ s.work) (hl : ∀ g, dues g l = dues g done)
    (hn : ∀ {g j : Nat}, .await g j ∉ l) : Transfers done l s t where
  work := hw
  count g := by rw [owed_congr he, remaining_congr hg, hl]
  await hm := absurd hm hn
  gate h := ⟨_, hg ▸ h, rfl, fun _ => rfl⟩
  owes h := .inl ((owes_congr he).mp h)
  strays h := (strays_congr he).mp h

theorem remaining_of_length_le (h : s.gates.length ≤ g) : s.remaining g = 0 := by
  simp [remaining, List.getElem?_eq_none h]

theorem remaining_of_getElem? {a : Gate} (h : s.gates[g]? = some a) :
    s.remaining g = a.remaining := by
  simp [remaining, h]

theorem exists_of_remaining_pos (h : 0 < s.remaining g) :
    ∃ a, s.gates[g]? = some a ∧ 0 < a.remaining := by
  unfold remaining at h
  split at h
  · exact ⟨_, ‹_›, h⟩
  · cases h

/-- The count of a new gate. -/
theorem remaining_chain (x : Nat) (ds : List Nat) (g : Nat) : (s.chain x ds).remaining g =
    s.remaining g + if s.gates.length = g then ds.length + 1 else 0 := by
  obtain hlt | rfl | hgt := Nat.lt_trichotomy g s.gates.length
  · rw [if_neg (by omega), Nat.add_zero]
    simp only [remaining, chain, List.getElem?_append_left hlt]
  · rw [remaining_of_length_le (Nat.le_refl _)]
    simp [remaining, chain]
  · rw [if_neg (by omega), remaining_of_length_le (Nat.le_of_lt hgt), remaining_of_length_le]
    simpa [chain] using Nat.succ_le_of_lt hgt

/-- A gate is made that counts what is going to release it. -/
theorem transfers_chain (x : Nat) (ds : List Nat) :
    ∃ items, Transfers [.chain x ds] items s (s.chain x ds) := by
  refine ⟨ds.map (.await s.gates.length) ++ [.release s.gates.length], {
    work := by simp [chain]
    count := fun g => ?_
    await := fun hm => ?_
    gate := fun hg => ⟨_, getElem?_append_of_some hg, rfl, fun _ => rfl⟩
    owes := .inl
    strays := id }⟩
  · have howed : (s.chain x ds).owed g = s.owed g := rfl
    have hdone : dues g [(.chain x ds : Work D)] = 0 := dues_eq_zero (by simp [Work.gate?])
    rw [howed, hdone, remaining_chain]
    simp only [dues_append, dues_await, dues_cons, dues_nil, Work.due_release]
    split <;> omega
  · simp only [List.mem_append, List.mem_map, Work.await.injEq, List.mem_singleton, reduceCtorEq,
      or_false] at hm
    obtain ⟨_, _, rfl, _⟩ := hm
    exact Nat.le_refl _

/-- A release takes one off the count. -/
theorem remaining_release (g h : Nat) : (s.release g).remaining h =
    if g = h then s.remaining h - 1 else s.remaining h := by
  unfold release
  split
  · rename_i hn
    have : s.remaining g = 0 := by simp [remaining, hn]
    split
    · simp_all
    · rfl
  · rename_i a ha
    by_cases hgh : g = h
    · subst hgh
      rw [if_pos rfl, remaining_of_getElem? ha, remaining]
      dsimp only
      rw [getElem?_set_of_some ha]
    · rw [if_neg hgh, remaining]
      dsimp only
      rw [List.getElem?_set_ne hgh, remaining]

/-- The last release leaves the dispatch of the slot, and no other leaves anything. -/
theorem work_release {a : Gate} (h : s.gates[g]? = some a) : (s.release g).work =
    (if s.remaining g = 1 then [.dispatch a.slot] else []) ++ s.work := by
  rw [remaining_of_getElem? h]
  simp only [release, h]
  split <;> rfl

/-- A release hands nothing on, unless nothing is left to be counted. -/
theorem transfers_release (h : 0 < s.remaining g) :
    ∃ items, Transfers [.release g] items s (s.release g) := by
  obtain ⟨a, ha, -⟩ := exists_of_remaining_pos h
  have hentries : (s.release g).entries = s.entries := by simp only [release, ha]
  refine ⟨_, {
    work := work_release ha
    count := fun j => ?_
    await := fun hm => ?_
    gate := fun {j b} hb => ?_
    owes := fun ho => .inl ((owes_congr hentries).mp ho)
    strays := (strays_congr hentries).mp }⟩
  · have hitems : dues j (if s.remaining g = 1 then [.dispatch a.slot] else [] :
        List (Work D)) = 0 := by split <;> rfl
    rw [hitems, owed_congr hentries, remaining_release, dues_cons, dues_nil, Work.due_release]
    split
    · rename_i heq
      subst heq
      omega
    · omega
  · split at hm <;> simp at hm
  · simp only [release, ha]
    by_cases hj : g = j
    · subst hj
      obtain rfl := Option.some.inj (ha.symm.trans hb)
      exact ⟨_, getElem?_set_of_some ha, rfl,
        fun hn => absurd (List.mem_singleton_self _) hn⟩
    · exact ⟨b, by rw [List.getElem?_set_ne hj, hb], rfl, fun _ => rfl⟩

/-- A release is registered at the vacancy of a slot, or left to be done if that is open. -/
theorem transfers_await (h : i < s.entries.length) :
    ∃ items, Transfers [.await g i] items s (s.await g i) := by
  have he := List.getElem?_eq_getElem h
  simp only [await, he]
  split
  · exact ⟨[.release g], transfers_of_dues rfl rfl rfl (fun j => by simp) (by simp)⟩
  · rename_i hv
    have hconts := Cell.continuations_register (.release g) _
      (by simpa using hv : s.entries[i].vacancy.isSettled = false)
    refine ⟨[], {
      work := rfl
      count := fun j => ?_
      await := fun hm => absurd hm List.not_mem_nil
      gate := fun hg => ⟨_, hg, rfl, fun _ => rfl⟩
      owes := fun {j k} ho => ?_
      strays := fun hs => at_of_set (f := { s.entries[i] with
        vacancy := s.entries[i].vacancy.register (.release g) }) he rfl hs fun hm => hm }⟩
    · have hset := owed_set (g := j) (t := s.put i { s.entries[i] with
        vacancy := s.entries[i].vacancy.register (.release g) }) he rfl
      simp only [Entry.owed, hconts, List.map_append, List.map_cons, List.map_nil, dues_append,
        dues_cons, dues_nil, Work.due_run_release] at hset
      have hgates : (s.put i { s.entries[i] with
        vacancy := s.entries[i].vacancy.register (.release g) }).remaining j = s.remaining j := rfl
      rw [hgates, dues_nil, dues_cons, dues_nil, Work.due_await]
      omega
    · obtain ⟨a, ha, hm⟩ := ho
      obtain ⟨rfl, rfl⟩ | ⟨_, ha⟩ := getElem?_set_cases ha
      · rw [hconts, List.mem_append, List.mem_singleton] at hm
        exact hm.imp (fun hm => ⟨_, he, hm⟩) fun heq => by cases heq; simp
      · exact .inl ⟨a, ha, hm⟩

/-- Every work item hands on what is owed, if the slot that it wants to wait for is there and the
gate that it releases still counts. -/
theorem exec_transfers (w : Work D) (hw : ∀ g i, w = .await g i → i < s.entries.length)
    (hr : ∀ g, w = .release g → 0 < s.remaining g) : ∃ items, Transfers [w] items s (exec w s) := by
  have undue {w : Work D} (hg : w.gate? = none) (g : Nat) : dues g [w] = 0 := by
    rw [dues_cons, dues_nil, Work.due_eq_zero hg]
  have free {w : Work D} {t : Machine D} (hg : w.gate? = none) (h : s.Idles t) :
      ∃ items, Transfers [w] items s t := h.transfers (undue hg)
  have one {w : Work D} (hw : w.gate? = none) : ∀ v ∈ [w], v.gate? = none :=
    List.forall_mem_singleton.mpr hw
  cases w with
  | perform a => exact free rfl (idles_perform a)
  | emit | note | reportTally => exact free rfl (.quiet rfl rfl rfl)
  | run k =>
      cases k with
      | announce => exact free rfl (.quiet rfl rfl rfl)
      | release g =>
          exact ⟨[.release g], transfers_of_dues rfl rfl rfl (fun j => by simp) (by simp)⟩
      | react tag effects =>
          exact free rfl ⟨effects.map .perform, rfl, by simp [Work.gate?], .same rfl rfl⟩
  | settle i o =>
      simp only [exec, settle]
      split
      · exact free rfl (.refl s)
      rename_i e he
      split
      · exact free rfl (.refl s)
      · exact ⟨_, transfers_of_open (undue rfl) he rfl rfl rfl (fun g => by simp [Entry.owed])
          (by simp) (fun _ => id) (by simp)⟩
  | cancelSlot i => exact free rfl (idles_cancelThen (.same rfl rfl) rfl (one rfl))
  | supersede i x =>
      simp only [exec, supersede]
      split
      · refine free rfl (idles_cancelThen (.same rfl rfl) rfl (List.forall_mem_cons.mpr ⟨rfl, ?_⟩))
        split
        · exact List.forall_mem_nil _
        · exact one rfl
      · exact free rfl (.refl s)
  | cancelEach ids total count =>
      cases ids with
      | nil => exact free rfl (.quiet rfl rfl rfl)
      | cons i ids =>
          exact free rfl (idles_cancelThen (.same rfl rfl) rfl
            (List.forall_mem_cons.mpr ⟨rfl, one rfl⟩))
  | skip i => exact free rfl idles_skip
  | openVacancy i =>
      cases he : s.entries[i]? with
      | none =>
          simp only [exec, openVacancy, he]
          exact free rfl (.refl s)
      | some e =>
          exact transfers_openVacancy (undue rfl) he (.same rfl rfl) rfl (List.forall_mem_nil _)
  | vacate i =>
      simp only [exec, vacate]
      split
      · exact free rfl (.refl s)
      · rename_i e he
        exact transfers_openVacancy (undue rfl)
          (getElem?_set_of_some he) (.put he rfl rfl rfl rfl) rfl
          (one rfl)
  | dispatch i => exact free rfl idles_dispatch
  | chain x ds => exact transfers_chain x ds
  | await g i => exact transfers_await (hw g i rfl)
  | release g => exact transfers_release (hr g rfl)
  | endTask i => exact free rfl idles_endTask
  | handOver i =>
      simp only [exec, handOver]
      split
      · exact free rfl (.refl s)
      · rename_i e he
        exact free rfl (.nothing rfl (.put he rfl rfl rfl rfl))
  | park i body =>
      simp only [exec, park]
      split
      · exact free rfl (.refl s)
      · rename_i e he
        exact free rfl (.nothing rfl (.put he rfl rfl rfl rfl))
  | finish i r =>
      simp only [exec, finish]
      split
      · exact free rfl (.refl s)
      rename_i e he
      split
      all_goals exact free rfl (.nothing rfl (.put he rfl rfl rfl rfl))

/-- A slot keeps the release of a gate until it vacates. -/
theorem owes_exec (w : Work D) (hk : s.Owes g i) :
    (exec w s).Owes g i ∨ (exec w s).vacated i = true := by
  obtain ⟨e, he, hm⟩ := hk
  obtain ⟨f, hf, hef⟩ := (exec_edits w s).entry he
  have opened (h : f.vacancy.isSettled = true) : (exec w s).vacated i = true :=
    vacated_eq_true_iff.mpr ⟨f, hf, h⟩
  cases hef with
  | openVacancy | vacate => exact .inr (opened (Cell.isSettled_settle ..))
  | enrol =>
      refine .inl ⟨_, hf, ?_⟩
      cases hv : e.vacancy with
      | settled => simp [hv, Cell.continuations] at hm
      | pending ws ks =>
          rw [hv] at hm
          exact List.mem_append_left _ hm
  | _ => exact .inl ⟨_, hf, hm⟩

/-- A slot that a gate is to wait for keeps its release, or has vacated. -/
theorem owes_await (h : i < s.entries.length) :
    (s.await g i).Owes g i ∨ (s.await g i).vacated i = true := by
  have he := List.getElem?_eq_getElem h
  simp only [await, he]
  split
  · rename_i hv
    exact .inr (vacated_eq_true_iff.mpr ⟨_, he, hv⟩)
  · rename_i hv
    refine .inl (.of_set he rfl ?_)
    rw [Cell.continuations_register _ _ (by simpa using hv)]
    exact List.mem_append_right _ (List.mem_singleton_self _)

theorem vacated_exec (w : Work D) (hv : s.vacated i = true) : (exec w s).vacated i = true := by
  obtain ⟨e, he, hve⟩ := vacated_eq_true_iff.mp hv
  obtain ⟨f, hf, hef⟩ := (exec_edits w s).entry he
  refine vacated_eq_true_iff.mpr ⟨f, hf, ?_⟩
  cases hef with
  | openVacancy | vacate => exact Cell.isSettled_settle ..
  | enrol => exact (Cell.isSettled_register ..).trans hve
  | _ => exact hve

/-! ### Moves -/

theorem idles_startJob : s.Idles (s.startJob i) := by
  unfold startJob
  split
  · exact .refl s
  rename_i e he
  have quiet {c : Callback D} :
      s.Undisturbed (s.put i { e with task := .working, callback := c }) :=
    .put he rfl rfl rfl rfl
  split
  · exact .nothing rfl (.put he rfl rfl rfl rfl)
  · rename_i outcome _
    refine ⟨(outcome.map (Work.settle i)).toList ++ [.endTask i], rfl, ?_,
      .put he rfl rfl rfl rfl⟩
    cases outcome <;> simp [Work.gate?]
  · split
    · exact ⟨[_, _], rfl, by simp [Work.gate?], .put he rfl rfl rfl rfl⟩
    · exact .nothing rfl (.put he rfl rfl rfl rfl)
  · exact .nothing rfl (.put he rfl rfl rfl rfl)

theorem idles_closeOut : s.Idles (s.closeOut i) := by
  unfold closeOut
  split
  · exact .refl s
  rename_i e he
  have hput : s.Undisturbed (s.put i { e with task := .ended }) := .put he rfl rfl rfl rfl
  have one : ∀ v ∈ [(.endTask i : Work D)], v.gate? = none := List.forall_mem_singleton.mpr rfl
  dsimp only
  split
  · exact idles_cancelThen (hput.trans (undisturbed_putPermit _)) (work_putPermit _) one
  · exact idles_cancelThen hput rfl one

theorem idles_continueJob : s.Idles (s.continueJob i) := by
  unfold continueJob
  split
  · exact .refl s
  rename_i e he
  split
  · rename_i o _
    refine ⟨panicNote e.kind o ++ [.settle i o, .endTask i], rfl, fun w hw => ?_,
      .put he rfl rfl rfl rfl⟩
    simp only [panicNote, List.mem_append, List.mem_map, List.mem_cons, List.not_mem_nil,
      or_false] at hw
    obtain ⟨_, _, rfl⟩ | rfl | rfl := hw <;> rfl
  · split
    · exact ⟨[_, _], rfl, by simp [Work.gate?], .put he rfl rfl rfl rfl⟩
    · exact .refl s
  · exact .refl s

theorem idles_poll : s.Idles (s.poll i) := by
  unfold poll
  split
  · exact .refl s
  rename_i e he
  split
  · exact .refl s
  · exact .refl s
  · split
    · split
      · exact idles_closeOut
      · rename_i p _
        have hp : s.Undisturbed { s with permits := some p } := .same rfl rfl
        exact hp.trans_idles rfl idles_startJob
      · exact .nothing rfl (.put he rfl rfl rfl rfl)
    · exact idles_startJob
  · split
    · exact idles_closeOut
    · exact .refl s
  · split
    · exact idles_closeOut
    · exact idles_startJob
  · exact idles_continueJob

theorem idles_advance : s.Idles (s.advance i) := by
  unfold advance
  split
  · exact .refl s
  rename_i e he
  split
  · rename_i body _
    refine ⟨_, rfl, fun w hw => ?_, .put he rfl rfl rfl rfl⟩
    obtain hw | hw := List.mem_append.mp hw
    · obtain ⟨a, _, rfl⟩ := List.mem_map.mp hw
      rfl
    · split at hw
      · simp only [List.mem_append, List.mem_map, List.mem_singleton] at hw
        obtain ⟨a, _, rfl⟩ | rfl := hw <;> rfl
      all_goals exact List.mem_singleton.mp hw ▸ rfl
  · refine ⟨_, rfl, fun w hw => ?_, .put he rfl rfl rfl rfl⟩
    simp only [List.mem_append, List.mem_map, List.mem_singleton] at hw
    obtain ⟨a, _, rfl⟩ | rfl := hw <;> rfl
  · exact .refl s

theorem idles_releaseJob : s.Idles (s.releaseJob i) := by
  unfold releaseJob
  split
  · exact .refl s
  rename_i e he
  dsimp only
  repeat' split
  all_goals exact .nothing rfl (.put he rfl rfl rfl rfl)

/-- No move of a manager's machine reaches a gate. -/
theorem begin_idles (m : Move D) : s.Idles (m.begin s) := by
  have nobody : ∀ w ∈ ([] : List (Work D)), w.gate? = none := List.forall_mem_nil _
  cases m with
  | submit => exact idles_submit nobody
  | cancel i =>
      simp only [Move.begin]
      split
      · exact idles_cancelThen (.same rfl rfl) rfl nobody
      · exact .refl s
  | cancelAll => exact idles_cancelAll nobody
  | snapshot | report | pause => exact .quiet rfl rfl rfl
  | onSettled => exact idles_onSettled nobody
  | effects es => exact ⟨es.map .perform, rfl, by simp [Work.gate?], .same rfl rfl⟩
  | shutdown =>
      refine ⟨_, work_closeDown s, fun w hw => ?_, .same (entries_closeDown s) (gates_closeDown s)⟩
      obtain ⟨i, _, rfl⟩ := List.mem_map.mp hw
      rfl
  | trip i =>
      simp only [Move.begin]
      split
      · exact .nothing (work_trip i s) (undisturbed_trip i s)
      · exact .refl s
  | awaitRequest => exact idles_modify (fun _ => rfl) fun e => Cell.continuations_await _ _
  | takeOutcome => exact idles_modify (fun _ => rfl) fun e => Cell.continuations_take _
  | dropFuture => exact idles_modify (fun _ => rfl) fun _ => rfl
  | release => exact idles_releaseJob
  | poll i =>
      simp only [Move.begin]
      split
      · exact .refl s
      · rename_i rest _
        have hready : s.Undisturbed { s with ready := rest } := .same rfl rfl
        exact hready.trans_idles rfl idles_poll
  | advance => exact idles_advance
  | lose tasks =>
      simp only [Move.begin]
      split
      · exact ⟨tasks.map .endTask, rfl, by simp [Work.gate?], .same rfl rfl⟩
      · exact .refl s

end Machine

namespace Slot

variable {s : Machine D}

/-- Nor does a move of a machine whose slots are made and driven by hand. -/
theorem begin_idles (m : Move D) : s.Idles (m.begin s) := by
  have one {w : Work D} (hw : w.gate? = none) : ∀ v ∈ [w], v.gate? = none :=
    List.forall_mem_singleton.mpr hw
  have record {p : Prop} [Decidable p] {a : Admission} :
      s.Idles (if p then { s with admission := a } else s) := by
    split
    · exact .quiet rfl rfl rfl
    · exact .refl s
  cases m with
  | make =>
      refine .nothing rfl (.append rfl rfl (fun g => rfl) (fun g hm => ?_) fun g hm => ?_)
      all_goals cases List.mem_singleton.mp hm
  | dispatch i => exact ⟨[.dispatch i], rfl, one rfl, .same rfl rfl⟩
  | cancel i =>
      simp only [Move.begin]
      split
      · exact ⟨[.cancelSlot i], rfl, one rfl, .same rfl rfl⟩
      · exact .refl s
  | trip i => exact .nothing (Machine.work_trip i s) (Machine.undisturbed_trip i s)
  | chain i on => exact ⟨[.chain i on], rfl, one rfl, .same rfl rfl⟩
  | closePermits =>
      simp only [Move.begin, Machine.closePermits]
      split
      · exact .refl s
      · exact .quiet rfl rfl rfl
  | admitRead | admitWrite => exact record
  | nextSeq | reject | prune | close => exact .quiet rfl rfl rfl
  | machine m => exact Machine.begin_idles m

end Slot

end RequestScheduler
