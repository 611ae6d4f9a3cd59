import RequestScheduler.Proofs.Sound

/-!
# What becomes of work

A rule does the first item of the list of work, or idle ones, or none, and leaves others in front of
what remains. So a work item is still to be done, or it has had its effect (`Rule.spent`).
-/

namespace RequestScheduler

namespace Machine

variable {D : Type} {s t : Machine D} {w : Work D}

/-- The cancellation of the slot was begun: its flag is set, and `items` hold what is left to be
done. -/
def Cancelling (s : Machine D) (items : List (Work D)) (i : Nat) : Prop :=
  s.At i (·.request.tripped = true) ∧ (∃ o, Work.settle i o ∈ items) ∧ Work.skip i ∈ items

/-- What has become of work that was done and left `items` to be done. -/
def Spent (s : Machine D) (items : List (Work D)) : Work D → Prop
  | .settle i _ => s.isPending i = false
  | .supersede i _ | .cancelSlot i => s.Cancelling items i
  | .cancelEach (i :: ids) total _ =>
    s.Cancelling items i ∧ ∃ n, .cancelEach ids total n ∈ items
  | .skip i | .dispatch i => ∀ e, s.entries[i]? = some e → e.stage ≠ .queued
  | _ => True

theorem Spent.mono {l m : List (Work D)} (h : s.Spent l w) (hlm : l ⊆ m) : s.Spent m w := by
  have cancelling {i : Nat} (h : s.Cancelling l i) : s.Cancelling m i :=
    ⟨h.1, h.2.1.imp fun _ ho => hlm ho, hlm h.2.2⟩
  cases w with
  | supersede | cancelSlot => exact cancelling h
  | cancelEach ids =>
      cases ids with
      | nil => trivial
      | cons => exact ⟨cancelling h.1, h.2.imp fun _ hn => hlm hn⟩
  | _ => exact h

/-- A rule does the first work item at most, or several idle ones, and leaves others in front. -/
theorem Rule.spends (h : Rule s t) : ∃ done items rest, s.work = done ++ rest ∧
    t.work = items ++ rest ∧ (∀ w ∈ done, t.Spent items w) ∧
    (done.length ≤ 1 ∨ ∀ w ∈ done, w.isIdle) := by
  have idle {m : Machine D} {l items : List (Work D)} (hl : ∀ w ∈ l, w.isIdle) :
      ∀ w ∈ l, m.Spent items w := by
    intro w hw
    have := hl w hw
    cases w with
    | cancelEach ids => cases ids <;> simp_all [Work.isIdle, Spent]
    | _ => simp_all [Work.isIdle, Spent]
  have none {m : Machine D} {items : List (Work D)} : ∀ w ∈ [], m.Spent items w :=
    List.forall_mem_nil _
  have one {m : Machine D} {l r : List (Work D)} {v : Work D} (hs : s.work = v :: r)
      (hm : m.work = l ++ r) (hv : m.Spent l v) : ∃ done items rest,
      s.work = done ++ rest ∧ m.work = items ++ rest ∧ (∀ w ∈ done, m.Spent items w) ∧
      (done.length ≤ 1 ∨ ∀ w ∈ done, w.isIdle) :=
    ⟨[v], l, r, hs, hm, fun w hw => List.mem_singleton.mp hw ▸ hv, .inl (Nat.le_refl 1)⟩
  -- The entry that a rule sets is the one that is there afterwards.
  have only {m : Machine D} {i : Nat} {e f : Entry D} (he : s.entries[i]? = some e)
      (hm : m.entries = s.entries.set i f) (hf : f.stage ≠ .queued) :
      ∀ e, m.entries[i]? = some e → e.stage ≠ .queued := by
    intro a ha
    rw [hm, getElem?_set_of_some he] at ha
    exact Option.some.inj ha ▸ hf
  cases h with
  | touch _ hs ht hd => exact ⟨_, _, _, hs, ht, idle hd, .inr hd⟩
  | prune | flag | begin => exact ⟨[], [], _, rfl, rfl, none, .inl (Nat.zero_le 1)⟩
  | @pass v r hs hv =>
      apply one (l := []) hs rfl
      cases v with
      | cancelEach ids => cases ids <;> exact hv.elim
      | settle | skip | dispatch => exact hv
      | openVacancy | vacate | release => trivial
      | _ => exact hv.elim
  | publish hs he =>
      apply one hs rfl
      simp [Spent, isPending, getElem?_set_of_some he]
  | @cancel i e d after r hs he hc =>
      have cancelling (ha : Work.skip i ∈ after) : Cancelling { s with
          entries := s.entries.set i { e with request := e.request.trip }
          work := .settle i (.error .cancelled) :: after ++ r }
          (.settle i (.error .cancelled) :: after) i :=
        ⟨.of_set he rfl rfl, ⟨_, List.mem_cons_self⟩, List.mem_cons_of_mem _ ha⟩
      cases hc with
      | client hd => exact ⟨_, _, _, hs, rfl, idle hd, .inr hd⟩
      | slot | supersede => exact one hs rfl (cancelling List.mem_cons_self)
      | @each ids total count next =>
          exact one hs rfl ⟨cancelling List.mem_cons_self, next, by simp⟩
      | stop => exact ⟨[], _, _, hs, rfl, none, .inl (Nat.zero_le 1)⟩
  | collect hs hd | refuse _ hs hd | read _ _ _ hs hd | write _ _ _ hs hd =>
      exact ⟨_, _, _, hs, rfl, idle hd, .inr hd⟩
  | close => exact ⟨[], _, _, rfl, rfl, none, .inl (Nat.zero_le 1)⟩
  | @skip i e v r hs hv he =>
      apply one (l := [.openVacancy i]) hs rfl
      obtain rfl | rfl := hv <;> exact only he rfl (by simp)
  | @vacate i e v notes r hs _ _ hv =>
      apply one hs rfl
      obtain ⟨rfl, _⟩ | ⟨rfl, _⟩ := hv <;> trivial
  | spawn hs he => exact one hs rfl (only he rfl (by simp))
  | @chain x ds r hs =>
      exact one (l := ds.map (Work.await s.gates.length) ++ [.release s.gates.length]) hs
        (by simp) trivial
  | enrol hs => exact one (l := []) hs rfl trivial
  | @forward g v r hs hv =>
      apply one (l := [.release g]) hs rfl
      obtain ⟨d, rfl, _⟩ | rfl := hv <;> trivial
  | @count g gate r hs =>
      refine one (l := if gate.remaining = 1 then [.dispatch gate.slot] else []) hs ?_ trivial
      split <;> rfl
  | @endTask i e r hs =>
      exact one (l := [.settle i (.error .cancelled), .vacate i]) hs rfl trivial
  | hear => exact ⟨[], [_, _], _, rfl, rfl, none, .inl (Nat.zero_le 1)⟩
  | @yield i e f v r hs hv =>
      apply one (l := []) hs rfl
      cases v with
      | park | finish => trivial
      | _ => cases hv
  | lead hs | lose hs =>
      exact ⟨[], _, [], hs, (List.append_nil _).symm, none, .inl (Nat.zero_le 1)⟩

/-- Work is left to be done, or it was done. -/
theorem Rule.spent (h : Rule s t) (hw : w ∈ s.work) : w ∈ t.work ∨ t.Spent t.work w := by
  obtain ⟨done, items, rest, hs, ht, hd, _⟩ := h.spends
  rw [hs, List.mem_append] at hw
  obtain hw | hw := hw
  · exact .inr ((hd w hw).mono (ht ▸ List.subset_append_left items rest))
  · exact .inl (ht ▸ List.mem_append_right _ hw)

end Machine

end RequestScheduler
