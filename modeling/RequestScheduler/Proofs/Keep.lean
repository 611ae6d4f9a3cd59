import RequestScheduler.Proofs.Crew

/-!
# What no thread undoes

What one thread has brought about, the others do not take back: a request stays settled and its flag
set, a slot stays vacated, and a task does not go back to where it came from (`Entry.Preserves`). So
a thread can rely on what it did itself. What it relies on is the order of its own work (`InOrder`):
it skips or vacates a slot when it has settled the request, and it ends a task that exists.

Every step of a crew keeps what there is and leaves its thread work that is in order
(`Crew.Fit.step`).
-/

namespace RequestScheduler

variable {D : Type}

namespace Entry

/-- The slot left the queue because the flag was set, and its job was given up. -/
structure IsSkipped (e : Entry D) : Prop where
  stage : e.stage = .vacated
  task : e.task = .unspawned
  tripped : e.request.tripped = true

/-- What holds of a request whatever the threads do. -/
structure Fit (e : Entry D) : Prop where
  idle : e.stage = .queued ∨ e.stage = .refused → e.task = .unspawned
  excused : e.isVacated = true → e.request.isSettled = true ∨ e.IsSkipped

/-- What no thread undoes. -/
structure Preserves (e f : Entry D) : Prop where
  kind : f.kind = e.kind
  refused : f.stage = .refused ↔ e.stage = .refused
  queued : f.stage = .queued → e.stage = .queued
  isVacated : e.isVacated = true → f.isVacated = true
  settled : e.request.isSettled = true → f.request.isSettled = true
  tripped : e.request.tripped = true → f.request.tripped = true
  spawned : e.task ≠ .unspawned → f.task ≠ .unspawned
  skipped : e.IsSkipped → f.IsSkipped

/-- Neither the slot nor the flag nor the outcome of the request has changed, and its task goes on
at most. -/
structure Calm (e f : Entry D) : Prop where
  kind : f.kind = e.kind
  stage : f.stage = e.stage
  isVacated : f.isVacated = e.isVacated
  settled : f.request.isSettled = e.request.isSettled
  tripped : f.request.tripped = e.request.tripped
  unspawned : f.task = .unspawned ↔ e.task = .unspawned

variable {e f g : Entry D}

theorem Preserves.refl (e : Entry D) : e.Preserves e :=
  ⟨rfl, .rfl, id, id, id, id, id, id⟩

theorem Preserves.trans (h₁ : e.Preserves f) (h₂ : f.Preserves g) : e.Preserves g where
  kind := h₂.kind.trans h₁.kind
  refused := h₂.refused.trans h₁.refused
  queued h := h₁.queued (h₂.queued h)
  isVacated h := h₂.isVacated (h₁.isVacated h)
  settled h := h₂.settled (h₁.settled h)
  tripped h := h₂.tripped (h₁.tripped h)
  spawned h := h₂.spawned (h₁.spawned h)
  skipped h := h₂.skipped (h₁.skipped h)

theorem Calm.refl (e : Entry D) : e.Calm e := ⟨rfl, rfl, rfl, rfl, rfl, .rfl⟩

theorem Calm.trans (h₁ : e.Calm f) (h₂ : f.Calm g) : e.Calm g where
  kind := h₂.kind.trans h₁.kind
  stage := h₂.stage.trans h₁.stage
  isVacated := h₂.isVacated.trans h₁.isVacated
  settled := h₂.settled.trans h₁.settled
  tripped := h₂.tripped.trans h₁.tripped
  unspawned := h₂.unspawned.trans h₁.unspawned

theorem Calm.keeps (h : e.Calm f) : e.Preserves f where
  kind := h.kind
  refused := by rw [h.stage]
  queued hq := h.stage ▸ hq
  isVacated hv := h.isVacated.trans hv
  settled hs := h.settled.trans hs
  tripped ht := h.tripped.trans ht
  spawned := mt h.unspawned.mp
  skipped hs := ⟨h.stage.trans hs.stage, h.unspawned.mpr hs.task, h.tripped.trans hs.tripped⟩

theorem Calm.fit (h : e.Calm f) (he : e.Fit) : f.Fit where
  idle hq := h.unspawned.mpr (he.idle (by rwa [h.stage] at hq))
  excused hv := by
    rw [h.isVacated] at hv
    rw [h.settled]
    exact (he.excused hv).imp_right h.keeps.skipped

/-- A task that exists goes on, and its callback with it. -/
theorem Calm.proceed {task : Task} (callback : Callback D) (ht : e.task ≠ .unspawned)
    (hf : task ≠ .unspawned) : e.Calm { e with task, callback } :=
  ⟨rfl, rfl, rfl, rfl, rfl, iff_of_false hf ht⟩

theorem fit_queued (kind : Kind) (seq : UInt64) (job : Job D) : (queued kind seq job).Fit :=
  ⟨fun _ => rfl, fun hv => by cases hv⟩

theorem fit_refused (kind : Kind) : (refused kind : Entry D).Fit :=
  ⟨fun _ => rfl, fun hv => by cases hv⟩

end Entry

namespace Work

/-- The request that a work item settles. -/
def settles? : Work D → Option Nat
  | .settle i _ => some i
  | _ => none

/-- Whether a work item relies on nothing. -/
def isFree : Work D → Bool
  | .settle .. | .cancelSlot _ | .cancelEach .. | .skip _ | .openVacancy _ | .vacate _ => false
  | .endTask _ => false
  | _ => true

end Work

namespace Admission

/-- The record lists the request. -/
def Lists (a : Admission) (i : Nat) : Prop :=
  i ∈ a.reads ∨ i ∈ a.writes ∨ a.currentWrite = some i

variable {a : Admission} {vacated : Nat → Bool} {i x : Nat}

theorem Lists.of_prune (h : (a.prune vacated).Lists i) : a.Lists i := by
  simp only [Lists, prune, List.mem_filter, Option.filter_eq_some_iff] at h
  exact h.imp And.left (Or.imp And.left And.left)

theorem Lists.of_admitRead (h : (a.admitRead vacated x).2.Lists i) : a.Lists i ∨ i = x := by
  simp only [Lists, admitRead, List.mem_append, List.mem_singleton] at h
  obtain (hi | hi) | hi := h
  · exact .inl (of_prune (.inl hi))
  · exact .inr hi
  · exact .inl (of_prune (.inr hi))

theorem Lists.of_admitWrite (h : (a.admitWrite vacated x).2.Lists i) : a.Lists i ∨ i = x := by
  simp only [Lists, admitWrite, List.mem_append, List.mem_singleton, Option.some.injEq] at h
  obtain hi | (hi | hi) | hi := h
  · exact .inl (of_prune (.inl hi))
  · exact .inl (of_prune (.inr (.inl hi)))
  · exact .inr hi
  · exact .inr hi.symm

theorem not_lists_close : ¬(a.close vacated).2.Lists i := by simp [Lists, close]

end Admission

namespace Machine

/-- The request has settled, or is one of those that settle first. -/
def Assured (s : Machine D) (first : List Nat) (i : Nat) : Prop :=
  s.At i fun e => e.request.isSettled = true ∨ i ∈ first

/-- What a work item relies on when the requests `first` are settled before its turn. -/
def Ready (s : Machine D) (first : List Nat) : Work D → Prop
  | .settle i _ | .cancelSlot i => s.At i fun _ => True
  | .cancelEach ids _ _ => ∀ i ∈ ids, s.At i fun _ => True
  | .skip i => s.Assured first i
  | .openVacancy i => s.Assured first i ∨ s.At i Entry.IsSkipped
  | .vacate i => s.Assured first i ∧ s.At i (·.task ≠ .unspawned)
  | .endTask i => s.At i (·.task ≠ .unspawned)
  | _ => True

/-- Every work item finds what it relies on when its turn comes. -/
def InOrder (s : Machine D) : List Nat → List (Work D) → Prop
  | _, [] => True
  | first, w :: l => s.Ready first w ∧ s.InOrder (first ++ w.settles?.toList) l

/-- What holds of a machine whatever the threads do. -/
structure Fit (s : Machine D) : Prop where
  entry : ∀ {i : Nat} {e : Entry D}, s.entries[i]? = some e → e.Fit
  listed : ∀ {i : Nat}, s.admission.Lists i → s.At i fun _ => True

/-- No request loses what threads rely on. -/
structure Preserves (s t : Machine D) : Prop where
  entry : ∀ {i : Nat} {e : Entry D}, s.entries[i]? = some e →
    ∃ f, t.entries[i]? = some f ∧ e.Preserves f

variable {s t u : Machine D} {i j : Nat} {e f : Entry D} {w : Work D} {l l₁ l₂ : List (Work D)}
  {first last : List Nat} {p q : Entry D → Prop}

theorem Preserves.refl (s : Machine D) : s.Preserves s := ⟨fun h => ⟨_, h, .refl _⟩⟩

theorem Preserves.same (h : t.entries = s.entries) : s.Preserves t :=
  ⟨fun he => ⟨_, h ▸ he, .refl _⟩⟩

theorem Preserves.trans (h₁ : s.Preserves t) (h₂ : t.Preserves u) : s.Preserves u where
  entry h := by
    obtain ⟨f, hf, hef⟩ := h₁.entry h
    obtain ⟨g, hg, hfg⟩ := h₂.entry hf
    exact ⟨g, hg, hef.trans hfg⟩

/-- One request is changed. -/
theorem Preserves.set (he : s.entries[i]? = some e) (ht : t.entries = s.entries.set i f)
    (hf : e.Preserves f) : s.Preserves t where
  entry {j a} hj := by
    rw [ht]
    by_cases hij : i = j
    · subst hij
      obtain rfl := Option.some.inj (he.symm.trans hj)
      exact ⟨f, getElem?_set_of_some he, hf⟩
    · exact ⟨a, by rw [List.getElem?_set_ne hij, hj], .refl a⟩

theorem At.keep (h : s.At i p) (hk : s.Preserves t)
    (hp : ∀ {e f : Entry D}, e.Preserves f → p e → q f) : t.At i q := by
  obtain ⟨e, he, hpe⟩ := h
  obtain ⟨f, hf, hef⟩ := hk.entry he
  exact ⟨f, hf, hp hef hpe⟩

theorem Assured.keep (h : s.Assured first i) (hk : s.Preserves t) : t.Assured first i :=
  At.keep h hk fun he => Or.imp_left he.settled

theorem Ready.keep (h : s.Ready first w) (hk : s.Preserves t)
    (ha : ∀ {i : Nat}, s.Assured first i → t.Assured last i) : t.Ready last w := by
  have there {i : Nat} (hi : s.At i fun _ => True) : t.At i fun _ => True :=
    hi.keep hk fun _ => id
  have spawned {i : Nat} (hi : s.At i (·.task ≠ .unspawned)) : t.At i (·.task ≠ .unspawned) :=
    hi.keep hk (·.spawned)
  cases w with
  | settle i o => exact there h
  | cancelSlot i => exact there h
  | cancelEach ids => exact fun i hi => there (h i hi)
  | skip i => exact ha h
  | openVacancy i => exact h.imp ha fun hi => At.keep hi hk (·.skipped)
  | vacate i => exact ⟨ha h.1, spawned h.2⟩
  | endTask i => exact spawned h
  | _ => trivial

/-- Work stays in order while other threads go on. -/
theorem InOrder.keep (h : s.InOrder first l) (hk : s.Preserves t)
    (ha : ∀ {i : Nat}, s.Assured first i → t.Assured last i) : t.InOrder last l := by
  induction l generalizing first last with
  | nil => trivial
  | cons w l ih =>
      refine ⟨h.1.keep hk ha, ih h.2 fun {i} hi => ?_⟩
      obtain ⟨e, he, hi⟩ := hi
      obtain ⟨f, hf, hef⟩ := hk.entry he
      rw [List.mem_append, ← or_assoc] at hi
      obtain hi | hi := hi
      · exact (ha ⟨e, he, hi⟩).imp fun g hg => hg.imp_right (List.mem_append_left _)
      · exact ⟨f, hf, .inr (List.mem_append_right _ hi)⟩

theorem InOrder.keep_all (h : s.InOrder first l) (hk : s.Preserves t) : t.InOrder first l :=
  h.keep hk fun hi => hi.keep hk

/-- The work behind relies on what the work in front settles. -/
theorem inOrder_append : s.InOrder first (l₁ ++ l₂) ↔
    s.InOrder first l₁ ∧ s.InOrder (first ++ l₁.filterMap Work.settles?) l₂ := by
  induction l₁ generalizing first with
  | nil => simp [InOrder]
  | cons w l₁ ih =>
      rw [List.cons_append, InOrder, ih, InOrder, and_assoc, List.append_assoc]
      cases hw : w.settles? with
      | none => rw [List.filterMap_cons_none hw]; rfl
      | some i => rw [List.filterMap_cons_some hw]; rfl

theorem ready_of_isFree (h : w.isFree = true) : s.Ready first w := by
  cases w with
  | settle | cancelSlot | cancelEach | skip | openVacancy | vacate | endTask => cases h
  | _ => trivial

/-- What relies on nothing but what there is can be done in any order. -/
theorem inOrder_of_ready (h : ∀ w ∈ l, s.Ready [] w) : s.InOrder first l := by
  induction l generalizing first with
  | nil => trivial
  | cons w l ih =>
      obtain ⟨hw, hl⟩ := List.forall_mem_cons.mp h
      exact ⟨hw.keep (.refl s) fun hi => hi.imp fun _ => Or.imp_right nofun, ih hl⟩

theorem inOrder_of_isFree (h : ∀ w ∈ l, w.isFree = true) : s.InOrder first l :=
  inOrder_of_ready fun w hw => ready_of_isFree (h w hw)

/-- Every request is calm, and the record stays as it is. -/
structure Calms (s t : Machine D) : Prop where
  length : t.entries.length = s.entries.length
  entry : ∀ {i : Nat} {e : Entry D}, s.entries[i]? = some e →
    ∃ f, t.entries[i]? = some f ∧ e.Calm f
  admission : t.admission = s.admission

theorem Calms.same (he : t.entries = s.entries) (ha : t.admission = s.admission) : s.Calms t :=
  ⟨by rw [he], fun h => ⟨_, by rw [he, h], .refl _⟩, ha⟩

theorem Calms.trans (h₁ : s.Calms t) (h₂ : t.Calms u) : s.Calms u where
  length := h₂.length.trans h₁.length
  entry h := by
    obtain ⟨f, hf, hef⟩ := h₁.entry h
    obtain ⟨g, hg, hfg⟩ := h₂.entry hf
    exact ⟨g, hg, hef.trans hfg⟩
  admission := h₂.admission.trans h₁.admission

/-- One request goes on. -/
theorem Calms.set (he : s.entries[i]? = some e) (ht : t.entries = s.entries.set i f)
    (hf : e.Calm f) (ha : t.admission = s.admission) : s.Calms t where
  length := by simp [ht]
  entry {j a} hj := by
    rw [ht]
    by_cases hij : i = j
    · subst hij
      obtain rfl := Option.some.inj (he.symm.trans hj)
      exact ⟨f, getElem?_set_of_some he, hf⟩
    · exact ⟨a, by rw [List.getElem?_set_ne hij, hj], .refl a⟩
  admission := ha

theorem Calms.keeps (h : s.Calms t) : s.Preserves t where
  entry he := by
    obtain ⟨f, hf, hef⟩ := h.entry he
    exact ⟨f, hf, hef.keeps⟩

/-- Every request was there before. -/
theorem Calms.entry_of (h : s.Calms t) (hf : t.entries[i]? = some f) :
    ∃ e, s.entries[i]? = some e ∧ e.Calm f := by
  have hi := (List.getElem?_eq_some_iff.mp hf).1
  obtain ⟨g, hg, heg⟩ := h.entry (List.getElem?_eq_getElem (h.length ▸ hi))
  obtain rfl := Option.some.inj (hf.symm.trans hg)
  exact ⟨_, List.getElem?_eq_getElem (h.length ▸ hi), heg⟩

theorem Calms.of_at (h : s.Calms t) (ht : t.At i p)
    (hp : ∀ {e f : Entry D}, e.Calm f → p f → q e) : s.At i q := by
  obtain ⟨f, hf, ht⟩ := ht
  obtain ⟨e, he, hef⟩ := h.entry_of hf
  exact ⟨e, he, hp hef ht⟩

theorem Calms.fit (h : s.Calms t) (hs : s.Fit) : t.Fit where
  entry hf := by
    obtain ⟨e, he, hef⟩ := h.entry_of hf
    exact hef.fit (hs.entry he)
  listed hi := by
    rw [h.admission] at hi
    exact (hs.listed hi).keep h.keeps fun _ => id

/-- A permit that comes back disturbs nobody. -/
theorem calms_putPermit (s : Machine D) : s.Calms s.putPermit where
  length := length_putPermit s
  entry he := by
    obtain hkept | ⟨_, hq, hhanded⟩ := entry_putPermit he
    · exact ⟨_, hkept, .refl _⟩
    · exact ⟨_, hhanded, .proceed _ (by simp [hq]) (by simp)⟩
  admission := by
    unfold putPermit hand
    repeat' split
    all_goals rfl

@[simp] theorem work_putPermit (s : Machine D) : s.putPermit.work = s.work :=
  (touches_putPermit s).2

/-- What a step of a thread comes to: nothing is lost, and what the thread has to do now in front of
the rest is in order. A flag was set by itself, or its request is what the thread settles next; and
only the given slot is handed to the runtime. -/
structure Leads (bare hands : Option Nat) (s t : Machine D) : Prop where
  keeps : s.Preserves t
  fit : t.Fit
  work : ∃ items, t.work = items ++ s.work ∧ t.InOrder [] items
  flag : ∀ {i : Nat}, t.At i (·.request.tripped = true) → s.At i (·.request.tripped = true) ∨
    bare = some i ∨ ∃ o rest, t.work = .settle i o :: rest
  hands : ∀ {i : Nat}, t.At i (·.stage = .dispatched) → s.At i (·.stage = .dispatched) ∨
    hands = some i

variable {bare hands : Option Nat}

/-- Requests go on, and work in order is left. -/
theorem Calms.leads (h : s.Calms t) (hs : s.Fit) (hw : t.work = l ++ s.work)
    (hi : t.InOrder [] l) : Leads bare hands s t where
  keeps := h.keeps
  fit := h.fit hs
  work := ⟨l, hw, hi⟩
  flag ht := .inl (h.of_at ht fun he => he.tripped.symm.trans)
  hands ht := .inl (h.of_at ht fun he => he.stage.symm.trans)

/-- Requests go on, and nothing is left. -/
theorem Calms.leads_nothing (h : s.Calms t) (hs : s.Fit) (hw : t.work = s.work) :
    Leads bare hands s t :=
  h.leads (l := []) hs hw trivial

theorem Leads.refl (hs : s.Fit) : Leads bare hands s s :=
  (Calms.same rfl rfl).leads_nothing hs rfl

/-- The requests stay as they are, and work is left that relies on nothing. -/
theorem Leads.push (hs : s.Fit) (he : t.entries = s.entries) (ha : t.admission = s.admission)
    (hw : t.work = l ++ s.work) (hi : ∀ w ∈ l, w.isFree = true) : Leads bare hands s t :=
  (Calms.same he ha).leads hs hw (inOrder_of_isFree hi)

/-- Requests go on before the step. -/
theorem Calms.trans_leads (h : s.Calms u) (hw : u.work = s.work) (hl : Leads bare hands u t) :
    Leads bare hands s t where
  keeps := h.keeps.trans hl.keeps
  fit := hl.fit
  work := hw ▸ hl.work
  flag ht := (hl.flag ht).imp_left fun hu => h.of_at hu fun he => he.tripped.symm.trans
  hands ht := (hl.hands ht).imp_left fun hu => h.of_at hu fun he => he.stage.symm.trans

/-- One request is changed. -/
theorem Leads.set (hs : s.Fit) (he : s.entries[i]? = some e) (ht : t.entries = s.entries.set i f)
    (hk : e.Preserves f) (hf : f.Fit) (ha : t.admission = s.admission)
    (hw : t.work = l ++ s.work) (hi : t.InOrder [] l)
    (hflag : f.request.tripped = true → e.request.tripped = true ∨ bare = some i ∨
      ∃ o rest, t.work = .settle i o :: rest)
    (hhands : f.stage = .dispatched → e.stage = .dispatched ∨ hands = some i) :
    Leads bare hands s t := by
  have hkeeps : s.Preserves t := .set he ht hk
  refine ⟨hkeeps, ⟨fun {j a} hj => ?_, fun {j} hj => ?_⟩, ⟨l, hw, hi⟩, fun {j} hj => ?_,
    fun {j} hj => ?_⟩
  · rw [ht] at hj
    obtain ⟨rfl, rfl⟩ | ⟨_, hj⟩ := getElem?_set_cases hj
    · exact hf
    · exact hs.entry hj
  · rw [ha] at hj
    exact (hs.listed hj).keep hkeeps fun _ => id
  · obtain ⟨a, haj, htrip⟩ := hj
    rw [ht] at haj
    obtain ⟨rfl, rfl⟩ | ⟨_, haj⟩ := getElem?_set_cases haj
    · exact (hflag htrip).imp_left fun h => ⟨e, he, h⟩
    · exact .inl ⟨a, haj, htrip⟩
  · obtain ⟨a, haj, hstage⟩ := hj
    rw [ht] at haj
    obtain ⟨rfl, rfl⟩ | ⟨_, haj⟩ := getElem?_set_cases haj
    · exact (hhands hstage).imp_left fun h => ⟨e, he, h⟩
    · exact .inl ⟨a, haj, hstage⟩

/-- One request goes on, and work in order is left. -/
theorem Leads.calm (hs : s.Fit) (he : s.entries[i]? = some e) (ht : t.entries = s.entries.set i f)
    (hc : e.Calm f) (ha : t.admission = s.admission) (hw : t.work = l ++ s.work)
    (hi : t.InOrder [] l) : Leads bare hands s t :=
  (Calms.set he ht hc ha).leads hs hw hi

/-- A request comes in at the end, and the record comes to list it at most. -/
theorem Leads.append (hs : s.Fit) (ht : t.entries = s.entries ++ [f]) (hf : f.Fit)
    (hn : f.request.tripped = false) (hd : f.stage ≠ .dispatched)
    (ha : ∀ i, t.admission.Lists i → s.admission.Lists i ∨ i = s.entries.length)
    (hw : t.work = l ++ s.work) (hi : t.InOrder [] l) : Leads bare hands s t := by
  have hkeeps : s.Preserves t := by
    constructor
    intro j a hj
    exact ⟨a, ht ▸ getElem?_append_of_some hj, .refl a⟩
  have cases {j : Nat} {a : Entry D} (ha : t.entries[j]? = some a) :
      s.entries[j]? = some a ∨ a = f :=
    (getElem?_concat_cases (ht ▸ ha)).symm.imp_right And.right
  have earlier {j : Nat} {p : Entry D → Prop} (hj : t.At j p) (hp : ¬p f) : s.At j p := by
    obtain ⟨a, haj, hpa⟩ := hj
    obtain haj | rfl := cases haj
    · exact ⟨a, haj, hpa⟩
    · exact absurd hpa hp
  refine ⟨hkeeps, ⟨fun {j a} hj => ?_, fun {j} hj => ?_⟩, ⟨l, hw, hi⟩,
    fun hj => .inl (earlier hj (by simp [hn])), fun hj => .inl (earlier hj hd)⟩
  · obtain hj | rfl := cases hj
    · exact hs.entry hj
    · exact hf
  · obtain hj | rfl := ha j hj
    · exact (hs.listed hj).keep hkeeps fun _ => id
    · exact .of_append ht trivial

/-- Nothing but the record has changed, and it lists nobody who is not there. -/
theorem Leads.record (hs : s.Fit) (he : t.entries = s.entries)
    (ha : ∀ {i : Nat}, t.admission.Lists i → s.At i fun _ => True)
    (hw : t.work = l ++ s.work) (hi : t.InOrder [] l) : Leads bare hands s t where
  keeps := .same he
  fit := ⟨fun h => hs.entry (he ▸ h), fun h => (At.congr he).mpr (ha h)⟩
  work := ⟨l, hw, hi⟩
  flag ht := .inl ((At.congr he).mp ht)
  hands ht := .inl ((At.congr he).mp ht)

end Machine

end RequestScheduler
