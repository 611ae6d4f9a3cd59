import RequestScheduler.Machine.Turn
import RequestScheduler.Sums

/-!
# Why a machine comes to rest

Every step of a machine uses something up. The client code that has not been performed yet, counted
in actions, never grows, since a submission moves the code of its callback from the submission to
the request. A step that performs no code has a weight greater than that of what it leaves to be
done. So the pair of both numbers descends with every step (`next?_below`), and a machine that is
left alone comes to rest.
-/

namespace RequestScheduler

variable {D : Type}

/-- The actions in a continuation. -/
def Continuation.text : Continuation D → Nat
  | .react _ effects => Effect.sizes effects
  | _ => 0

/-- What running a continuation costs at most, the performing of code apart. -/
def Continuation.weight : Continuation D → Nat
  | .release _ => 12
  | .react _ effects => 1 + effects.length
  | .announce _ => 1

/-- The actions in a job that has not begun, or in the rest of a parked one. -/
def Callback.text : Callback D → Nat
  | .held (.callback body) => body.size
  | .offered body => body.size
  | .parked body => 1 + Effect.sizes body.post
  | _ => 0

/-- What a job in this state costs at most until its task is over. -/
def Callback.weight : Callback D → Nat
  | .returned _ | .latched _ => 6
  | _ => 0

/-- What a task in this state costs at most until it is over, its job apart. -/
def Task.weight : Task → Nat
  | .fresh | .queueing => 8
  | .handed => 7
  | _ => 0

namespace Work

/-- The actions in a work item. -/
def text : Work D → Nat
  | .perform e => e.size
  | .run k => k.text
  | .park _ body => 1 + Effect.sizes body.post
  | _ => 0

/-- What a work item costs at most, the performing of code apart. -/
def weight : Work D → Nat
  | .run k => k.weight
  | .cancelSlot _ | .endTask _ => 4
  | .supersede .. => 5
  | .cancelEach pending _ _ => 4 * pending.length + 1
  | .skip _ | .vacate _ => 2
  | .dispatch _ => 10
  | .chain _ dependencies => 13 * dependencies.length + 12
  | .await .. => 13
  | .release _ => 11
  | .finish .. => 8
  | _ => 1

end Work

namespace Entry

/-- The actions that an entry keeps: those of its job and of its continuations. -/
def text (e : Entry D) : Nat :=
  e.callback.text + total (e.request.cell.continuations.map Continuation.text) +
    total (e.vacancy.continuations.map Continuation.text)

/-- The weight that an entry keeps. -/
def weight (e : Entry D) : Nat :=
  e.task.weight + e.callback.weight +
    total (e.request.cell.continuations.map Continuation.weight) +
    total (e.vacancy.continuations.map Continuation.weight)

end Entry

namespace Machine

/-- The client code that is still to be performed. -/
def text (s : Machine D) : Nat := total (s.work.map Work.text) + total (s.entries.map Entry.text)

/-- The weight of what is still to be done. -/
def load (s : Machine D) : Nat :=
  total (s.work.map Work.weight) + total (s.entries.map Entry.weight) + s.ready.size

/-- One machine is below another: it has less code, or as much and less weight. -/
def Below (t s : Machine D) : Prop := t.text < s.text ∨ t.text ≤ s.text ∧ t.load < s.load

end Machine

namespace Effect

theorem total_map_size (es : List (Effect D)) : total (es.map Effect.size) = Effect.sizes es := by
  induction es with
  | nil => simp [sizes]
  | cons e es ih => simp [sizes, ih]

end Effect

namespace Machine

variable {s : Machine D}

@[simp] theorem text_push (items : List (Work D)) :
    (s.push items).text = total (items.map Work.text) + s.text := by
  simp only [push, text, List.map_append, total_append]
  omega

@[simp] theorem load_push (items : List (Work D)) :
    (s.push items).load = total (items.map Work.weight) + s.load := by
  simp only [push, load, List.map_append, total_append]
  omega

@[simp] theorem text_emit (e : Event D) : (s.emit e).text = s.text := rfl
@[simp] theorem load_emit (e : Event D) : (s.emit e).load = s.load := rfl
@[simp] theorem text_note (t : TraceEvent) : (s.note t).text = s.text := rfl
@[simp] theorem load_note (t : TraceEvent) : (s.note t).load = s.load := rfl

@[simp] theorem text_pause : s.pause.text = s.text := rfl
@[simp] theorem load_pause : s.pause.load = s.load := rfl

@[simp] theorem text_wakeTask (id : Nat) : (s.wakeTask id).text = s.text := rfl

@[simp] theorem load_wakeTask (id : Nat) : (s.wakeTask id).load = s.load + 1 := by
  simp [wakeTask, load]
  omega

theorem text_put {id : Nat} {e u : Entry D} (h : s.entries[id]? = some e) :
    (s.put id u).text + e.text = s.text + u.text := by
  have := total_map_set (f := Entry.text) (b := u) h
  simp only [put, text]
  omega

theorem load_put {id : Nat} {e u : Entry D} (h : s.entries[id]? = some e) :
    (s.put id u).load + e.weight = s.load + u.weight := by
  have := total_map_set (f := Entry.weight) (b := u) h
  simp only [put, load]
  omega

@[simp] theorem total_map_run_text (ks : List (Continuation D)) :
    total ((ks.map Work.run).map Work.text) = total (ks.map Continuation.text) := by
  simp [List.map_map, Function.comp_def, Work.text]

@[simp] theorem total_map_run_weight (ks : List (Continuation D)) :
    total ((ks.map Work.run).map Work.weight) = total (ks.map Continuation.weight) := by
  simp [List.map_map, Function.comp_def, Work.weight]

@[simp] theorem total_map_perform_text (es : List (Effect D)) :
    total ((es.map Work.perform).map Work.text) = Effect.sizes es := by
  simp [List.map_map, Function.comp_def, Work.text, ← Effect.total_map_size]

theorem text_settle (id : Nat) (o : Outcome (Value D)) : (s.settle id o).text = s.text := by
  unfold settle
  split
  · rfl
  · rename_i e h
    split
    · rfl
    · have := total_map_set (f := Entry.text) (b := { e with request := e.request.publish o }) h
      simp only [text, List.map_append, total_append, total_map_run_text]
      simp only [Entry.text, Request.continuations_publish, List.map_nil, total_nil] at this
      omega

theorem load_settle (id : Nat) (o : Outcome (Value D)) : (s.settle id o).load = s.load := by
  unfold settle
  split
  · rfl
  · rename_i e h
    split
    · rfl
    · have := total_map_set (f := Entry.weight) (b := { e with request := e.request.publish o }) h
      simp only [load, List.map_append, total_append, total_map_run_weight]
      simp only [Entry.weight, Request.continuations_publish, List.map_nil, total_nil] at this
      omega

@[simp] theorem text_trip (id : Nat) : (s.trip id).text = s.text := by
  unfold trip
  split
  · rfl
  · rename_i e h
    have := text_put (s := s) (u := { e with request := e.request.trip }) h
    simp only [Entry.text, Request.trip] at this ⊢
    omega

@[simp] theorem load_trip (id : Nat) : (s.trip id).load = s.load := by
  unfold trip
  split
  · rfl
  · rename_i e h
    have := load_put (s := s) (u := { e with request := e.request.trip }) h
    simp only [Entry.weight, Request.trip] at this ⊢
    omega

@[simp] theorem text_cancelThen (id : Nat) (after : List (Work D)) :
    (s.cancelThen id after).text = total (after.map Work.text) + s.text := by
  simp [cancelThen, Work.text]

@[simp] theorem load_cancelThen (id : Nat) (after : List (Work D)) :
    (s.cancelThen id after).load = 1 + total (after.map Work.weight) + s.load := by
  simp [cancelThen, Work.weight]

theorem text_openVacancy (id : Nat) (after : List (Work D)) :
    (s.openVacancy id after).text ≤ total (after.map Work.text) + s.text := by
  unfold openVacancy
  split
  · omega
  · rename_i e h
    split
    · omega
    · have := total_map_set (f := Entry.text) (b := { e with vacancy := e.vacancy.settle () }) h
      simp only [text, List.map_append, total_append, total_map_run_text]
      simp only [Entry.text, Cell.continuations_settle, List.map_nil, total_nil] at this
      omega

theorem load_openVacancy (id : Nat) (after : List (Work D)) :
    (s.openVacancy id after).load ≤ total (after.map Work.weight) + s.load := by
  unfold openVacancy
  split
  · omega
  · rename_i e h
    split
    · omega
    · have := total_map_set (f := Entry.weight) (b := { e with vacancy := e.vacancy.settle () }) h
      simp only [load, List.map_append, total_append, total_map_run_weight]
      simp only [Entry.weight, Cell.continuations_settle, List.map_nil, total_nil] at this
      omega

theorem text_skip (id : Nat) : (s.skip id).text ≤ s.text := by
  unfold skip
  split
  · omega
  · rename_i e h
    split
    · have := text_put (s := s) (u := { e with stage := .vacated, callback := .dropped }) h
      simp only [text_push, text_note, List.map_cons, List.map_nil, total_cons, total_nil,
        Work.text]
      simp only [Entry.text, Callback.text] at this ⊢
      omega
    · omega

theorem load_skip (id : Nat) : (s.skip id).load ≤ 1 + s.load := by
  unfold skip
  split
  · omega
  · rename_i e h
    split
    · have := load_put (s := s) (u := { e with stage := .vacated, callback := .dropped }) h
      simp only [load_push, load_note, List.map_cons, List.map_nil, total_cons, total_nil,
        Work.weight]
      simp only [Entry.weight, Callback.weight] at this ⊢
      omega
    · omega

theorem text_vacate (id : Nat) : (s.vacate id).text ≤ s.text := by
  unfold vacate
  split
  · omega
  · rename_i e h
    have := text_put (s := s) (u := { e with stage := .vacated }) h
    have := text_openVacancy (s := s.put id { e with stage := .vacated }) id
      [.note (.vacate e.seq e.kind)]
    simp only [Entry.text, List.map_cons, List.map_nil, total_cons, total_nil,
      Work.text] at *
    omega

theorem load_vacate (id : Nat) : (s.vacate id).load ≤ 1 + s.load := by
  unfold vacate
  split
  · omega
  · rename_i e h
    have := load_put (s := s) (u := { e with stage := .vacated }) h
    have := load_openVacancy (s := s.put id { e with stage := .vacated }) id
      [.note (.vacate e.seq e.kind)]
    simp only [Entry.weight, List.map_cons, List.map_nil, total_cons, total_nil,
      Work.weight] at *
    omega

theorem text_hand (id : Nat) : (s.hand id).text = s.text := by
  unfold hand
  split
  · rfl
  · rename_i e h
    split
    · have := text_put (s := s) (u := { e with task := .handed }) h
      simp only [text_wakeTask, Entry.text] at *
      omega
    · rfl

theorem load_hand (id : Nat) : (s.hand id).load = s.load := by
  unfold hand
  split
  · rfl
  · rename_i e h
    split
    · rename_i ht
      have := load_put (s := s) (u := { e with task := .handed }) h
      simp only [load_wakeTask, Entry.weight, ht, Task.weight] at *
      omega
    · rfl

theorem text_putPermit : s.putPermit.text = s.text := by
  unfold putPermit
  repeat' split
  all_goals first | rfl | exact text_hand _

theorem load_putPermit : s.putPermit.load = s.load := by
  unfold putPermit
  repeat' split
  all_goals first | rfl | exact load_hand _

theorem text_dispatch (id : Nat) : (s.dispatch id).text ≤ s.text := by
  unfold dispatch
  split
  · omega
  · rename_i e h
    repeat' split
    · exact text_skip id
    · have := text_put (s := (s.note (.dispatch e.seq e.kind)).note (.spawn .control))
        (u := { e with stage := .dispatched, task := .fresh }) h
      simp only [text_wakeTask, text_note, Entry.text] at *
      omega
    · have := text_put (s := (s.note (.dispatch e.seq e.kind)).note (.spawn .control))
        (u := { e with stage := .dispatched, task := .ended }) h
      simp only [text_push, text_note, Entry.text, List.map_cons, List.map_nil, total_cons,
        total_nil, Work.text] at *
      omega
    · omega

theorem load_dispatch (id : Nat) : (s.dispatch id).load ≤ 9 + s.load := by
  unfold dispatch
  split
  · omega
  · rename_i e h
    repeat' split
    · have := load_skip (s := s) id
      omega
    · have := load_put (s := (s.note (.dispatch e.seq e.kind)).note (.spawn .control))
        (u := { e with stage := .dispatched, task := .fresh }) h
      simp only [load_wakeTask, load_note, Entry.weight, Task.weight] at *
      omega
    · have := load_put (s := (s.note (.dispatch e.seq e.kind)).note (.spawn .control))
        (u := { e with stage := .dispatched, task := .ended }) h
      simp only [load_push, load_note, Entry.weight, Task.weight, List.map_cons, List.map_nil,
        total_cons, total_nil, Work.weight] at *
      omega
    · omega

theorem text_chain (id : Nat) (dependencies : List Nat) :
    (s.chain id dependencies).text = s.text := by
  have : total ((dependencies.map (Work.await (D := D) s.gates.length)).map Work.text) = 0 := by
    induction dependencies with
    | nil => rfl
    | cons d ds ih => simpa [Work.text] using ih
  simp only [chain, text, List.map_append, total_append, List.map_cons, total_cons,
    Work.text]
  omega

theorem load_chain (id : Nat) (dependencies : List Nat) :
    (s.chain id dependencies).load = 13 * dependencies.length + 11 + s.load := by
  have : total ((dependencies.map (Work.await (D := D) s.gates.length)).map Work.weight) =
      13 * dependencies.length := by
    induction dependencies with
    | nil => rfl
    | cons d ds ih =>
      simp only [List.map_cons, total_cons, List.length_cons, ih, Work.weight]
      omega
  simp only [chain, load, List.map_append, total_append, List.map_cons, total_cons,
    Work.weight]
  omega

theorem text_await (gate dependency : Nat) : (s.await gate dependency).text = s.text := by
  unfold await
  split
  · rfl
  · rename_i e h
    split
    · simp [Work.text]
    · rename_i hv
      have := text_put (s := s) (u := { e with vacancy := e.vacancy.register (.release gate) }) h
      rw [Bool.not_eq_true] at hv
      simp only [Entry.text, Cell.continuations_register _ _ hv, List.map_append,
        total_append, List.map_cons, List.map_nil, total_cons, total_nil,
        Continuation.text] at this ⊢
      omega

theorem load_await (gate dependency : Nat) :
    (s.await gate dependency).load ≤ 12 + s.load := by
  unfold await
  split
  · omega
  · rename_i e h
    split
    · simp [Work.weight]
    · rename_i hv
      have := load_put (s := s) (u := { e with vacancy := e.vacancy.register (.release gate) }) h
      rw [Bool.not_eq_true] at hv
      simp only [Entry.weight, Cell.continuations_register _ _ hv, List.map_append,
        total_append, List.map_cons, List.map_nil, total_cons, total_nil,
        Continuation.weight] at this ⊢
      omega

theorem text_release (gate : Nat) : (s.release gate).text = s.text := by
  unfold release
  split
  · rfl
  · simp only [text]
    split <;> simp [Work.text]

theorem load_release (gate : Nat) : (s.release gate).load ≤ 10 + s.load := by
  unfold release
  split
  · omega
  · simp only [load]
    split
    · simp only [List.map_cons, total_cons, Work.weight]
      omega
    · omega

theorem load_remove_ready (id : Nat) :
    ({ s with ready := s.ready.remove id } : Machine D).load ≤ s.load := by
  have := Agenda.size_remove_le id s.ready
  simp only [load]
  omega

theorem callback_text_close (c : Callback D) : c.close.text ≤ c.text := by
  cases c <;> simp [Callback.close, Callback.text]

theorem callback_weight_close (c : Callback D) : c.close.weight ≤ c.weight := by
  cases c <;> simp [Callback.close, Callback.weight]

theorem text_endTask (id : Nat) : (s.endTask id).text ≤ s.text := by
  unfold endTask
  split
  · omega
  · rename_i e h
    have := text_put (s := { s with ready := s.ready.remove id })
      (u := { e with task := .ended, callback := e.callback.close }) h
    have hc := callback_text_close e.callback
    have hs : ({ s with ready := s.ready.remove id } : Machine D).text = s.text := rfl
    simp only [Entry.text, hs, text_push, List.map_cons, List.map_nil, total_cons,
      total_nil, Work.text] at *
    split
    · rw [text_putPermit]
      omega
    · rw [text_putPermit]
      omega
    · simp only [text] at *
      omega
    · omega

theorem load_endTask (id : Nat) : (s.endTask id).load ≤ 3 + s.load := by
  unfold endTask
  split
  · omega
  · rename_i e h
    have := load_put (s := { s with ready := s.ready.remove id })
      (u := { e with task := .ended, callback := e.callback.close }) h
    have hc := callback_weight_close e.callback
    have hs := load_remove_ready (s := s) id
    simp only [Entry.weight, load_push, List.map_cons, List.map_nil, total_cons,
      total_nil, Work.weight, Task.weight] at *
    split
    · rw [load_putPermit]
      omega
    · rw [load_putPermit]
      omega
    · simp only [load] at *
      omega
    · omega

theorem entry_text_queued (kind : Kind) (seq : UInt64) (body : Body D) :
    (Entry.queued kind seq (.callback body)).text = body.size := by
  simp [Entry.queued, Entry.text, Callback.text, Cell.empty, Cell.continuations]

theorem entry_text_refused (kind : Kind) : (Entry.refused kind : Entry D).text = 0 := by
  simp [Entry.refused, Entry.text, Callback.text, Cell.empty, Cell.continuations]

theorem text_submit (kind : Kind) (body : Body D) (after : List (Work D)) :
    (s.submit kind body after).text ≤ body.size + total (after.map Work.text) + s.text := by
  have hmap (id : Nat) (l : List Nat) :
      total ((l.map (Work.supersede (D := D) · id)).map Work.text) = 0 := by
    induction l with
    | nil => rfl
    | cons d ds ih => simpa [Work.text] using ih
  unfold submit
  split
  · simp only [text, List.cons_append, List.map_cons, List.map_append, total_cons,
      total_append, List.map_nil, total_nil, Work.text, entry_text_refused]
    omega
  · cases kind with
    | read =>
      dsimp only
      split <;>
      · simp only [text, List.cons_append, List.map_cons, List.map_append, total_cons,
          total_append, List.map_nil, total_nil, Work.text, entry_text_queued]
        omega
    | write =>
      simp only [text, List.append_assoc, List.cons_append, List.map_cons, List.map_append,
        total_cons, total_append, List.map_nil, total_nil, Work.text,
        entry_text_queued, hmap]
      omega

@[simp] theorem text_outstanding : s.outstanding.2.text = s.text := rfl
@[simp] theorem load_outstanding : s.outstanding.2.load = s.load := rfl
@[simp] theorem text_snapshot : s.snapshot.2.text = s.text := rfl
@[simp] theorem load_snapshot : s.snapshot.2.load = s.load := rfl

theorem text_onSettled (id : Nat) (tag : D) (effects : List (Effect D)) (after : List (Work D)) :
    (s.onSettled id tag effects after).text ≤
      Effect.sizes effects + total (after.map Work.text) + s.text := by
  unfold onSettled
  split
  · simp only [text_push]
    omega
  · rename_i e h
    split
    · simp only [text_push, List.map_cons, total_cons, Work.text, Continuation.text]
      omega
    · rename_i hr
      have := text_put (s := s)
        (u := { e with request := e.request.register (.react tag effects) }) h
      rw [Bool.not_eq_true] at hr
      have hk := Cell.continuations_register (.react tag effects) e.request.cell hr
      simp only [Entry.text, Request.register, hk, List.map_append, total_append,
        List.map_cons, List.map_nil, total_cons, total_nil, Continuation.text,
        text_push] at this ⊢
      omega

theorem text_perform_lt (e : Effect D) : (s.perform e).text < e.size + s.text := by
  cases e with
  | submit kind mode pre post result =>
    have := text_submit (s := s) kind { mode, pre, post, result }
      [.emit (.submitted s.entries.length)]
    simp only [perform, Effect.size, Body.size, List.map_cons, List.map_nil, total_cons,
      total_nil, Work.text] at *
    omega
  | onSettled id tag effects =>
    simp only [perform, Effect.size]
    split
    · simp only [text_emit]
      omega
    · have := text_onSettled (s := s) id tag effects [.emit (.onSettled id true)]
      simp only [List.map_cons, List.map_nil, total_cons, total_nil, Work.text] at this
      omega
  | cancel id =>
    simp only [perform, Effect.size]
    split
    · simp only [text_emit]
      omega
    · simp only [text_cancelThen, List.map_cons, List.map_nil, total_cons, total_nil,
        Work.text]
      omega
  | cancelAll =>
    simp only [perform, cancelAll, Effect.size, text_push, List.map_cons, List.map_nil,
      total_cons, total_nil, Work.text, text_outstanding]
    omega
  | snapshot =>
    simp only [perform, Effect.size, text_emit, text_snapshot]
    omega
  | log | status =>
    simp only [perform, Effect.size, text_emit]
    omega
  | set | add | mul =>
    simp only [perform, Effect.size, text]
    omega

theorem text_run (k : Continuation D) : (s.run k).text = k.text + s.text := by
  cases k <;> simp [run, Continuation.text, Work.text, -List.map_map]

theorem load_run (k : Continuation D) : (s.run k).load < k.weight + s.load := by
  cases k with
  | release gate => simp [run, Continuation.weight, Work.weight]
  | react tag effects =>
    have : total ((effects.map Work.perform).map Work.weight) = effects.length := by
      induction effects with
      | nil => rfl
      | cons e es ih =>
        simp only [List.map_cons, total_cons, List.length_cons, ih, Work.weight]
        omega
    simp only [run, load_push, load_emit, this, Continuation.weight]
    omega
  | announce e =>
    simp only [run, load_emit, Continuation.weight]
    omega

theorem text_handOver (id : Nat) : (s.handOver id).text = s.text := by
  unfold handOver
  split
  · rfl
  · rename_i e h
    have := text_put (s := s) (u := { e with future := .held }) h
    simp only [Entry.text] at *
    omega

theorem load_handOver (id : Nat) : (s.handOver id).load = s.load := by
  unfold handOver
  split
  · rfl
  · rename_i e h
    have := load_put (s := s) (u := { e with future := .held }) h
    simp only [Entry.weight] at *
    omega

theorem text_park (id : Nat) (body : Body D) :
    (s.park id body).text ≤ 1 + Effect.sizes body.post + s.text := by
  unfold park
  split
  · omega
  · rename_i e h
    have := text_put (s := s) (u := { e with callback := .parked body }) h
    simp only [Entry.text, Callback.text] at *
    omega

theorem load_park (id : Nat) (body : Body D) : (s.park id body).load ≤ s.load := by
  unfold park
  split
  · omega
  · rename_i e h
    have := load_put (s := s) (u := { e with callback := .parked body }) h
    simp only [Entry.weight, Callback.weight] at *
    omega

theorem text_finish (id : Nat) (result : Result D) : (s.finish id result).text ≤ s.text := by
  unfold finish
  split
  · omega
  · rename_i e h
    split
    · have := text_put (s := s.emit (.finish id))
        (u := { e with
          callback := .returned (result.outcome s.register e.request.tripped) }) h
      simp only [text_wakeTask, text_emit, Entry.text, Callback.text] at *
      omega
    · have := text_put (s := s.emit (.finish id)) (u := { e with callback := .spent }) h
      simp only [text_emit, Entry.text, Callback.text] at *
      omega

theorem load_finish (id : Nat) (result : Result D) : (s.finish id result).load ≤ 7 + s.load := by
  unfold finish
  split
  · omega
  · rename_i e h
    split
    · have := load_put (s := s.emit (.finish id))
        (u := { e with
          callback := .returned (result.outcome s.register e.request.tripped) }) h
      simp only [load_wakeTask, load_emit, Entry.weight, Callback.weight] at *
      omega
    · have := load_put (s := s.emit (.finish id)) (u := { e with callback := .spent }) h
      simp only [load_emit, Entry.weight, Callback.weight] at *
      omega

theorem text_supersede (victim writer : Nat) : (s.supersede victim writer).text = s.text := by
  unfold supersede
  split
  · split <;> simp [Work.text]
  · rfl

theorem load_supersede (victim writer : Nat) :
    (s.supersede victim writer).load ≤ 4 + s.load := by
  unfold supersede
  split
  · split <;> simp [Work.weight]
  · omega

theorem text_cancelEach (pending : List Nat) (total count : Nat) :
    (s.cancelEach pending total count).text = s.text := by
  cases pending with
  | nil => rfl
  | cons id rest => simp [cancelEach, Work.text]

theorem load_cancelEach (pending : List Nat) (total count : Nat) :
    (s.cancelEach pending total count).load ≤ 4 * pending.length + s.load := by
  cases pending with
  | nil =>
    show s.load ≤ _
    omega
  | cons id rest =>
    simp only [cancelEach, load_cancelThen, List.map_cons, List.map_nil, total_cons,
      total_nil, Work.weight, List.length_cons]
    omega

/-- Carrying out a work item leaves a machine below the one with the item still on its list. -/
theorem exec_below (w : Work D) (rest : List (Work D)) :
    (exec w { s with work := rest }).Below { s with work := w :: rest } := by
  have ht : ({ s with work := w :: rest } : Machine D).text =
      w.text + ({ s with work := rest } : Machine D).text := by
    simp only [text, List.map_cons, total_cons]
    omega
  have hl : ({ s with work := w :: rest } : Machine D).load =
      w.weight + ({ s with work := rest } : Machine D).load := by
    simp only [load, List.map_cons, total_cons]
    omega
  unfold Below
  rw [ht, hl]
  generalize ({ s with work := rest } : Machine D) = t
  cases w with
  | perform e => exact .inl (text_perform_lt e)
  | emit e =>
    simp only [exec, text_emit, load_emit, Work.weight, Work.text]
    omega
  | note e =>
    simp only [exec, text_note, load_note, Work.weight, Work.text]
    omega
  | run k => exact .inr ⟨Nat.le_of_eq (text_run k), load_run k⟩
  | settle id o =>
    simp only [exec, text_settle, load_settle, Work.weight, Work.text]
    omega
  | cancelSlot id =>
    simp only [exec, text_cancelThen, load_cancelThen, Work.weight, Work.text, List.map_cons,
      List.map_nil, total_cons, total_nil]
    omega
  | supersede victim writer =>
    have := load_supersede (s := t) victim writer
    simp only [exec, text_supersede, Work.weight, Work.text]
    omega
  | cancelEach pending total count =>
    have := load_cancelEach (s := t) pending total count
    simp only [exec, text_cancelEach, Work.weight, Work.text]
    omega
  | reportTally =>
    simp only [exec, text_emit, load_emit, Work.weight, Work.text]
    omega
  | skip id =>
    have := text_skip (s := t) id
    have := load_skip (s := t) id
    simp only [exec, Work.weight, Work.text]
    omega
  | openVacancy id =>
    have := text_openVacancy (s := t) id []
    have := load_openVacancy (s := t) id []
    simp only [exec, Work.weight, Work.text, List.map_nil, total_nil] at *
    omega
  | vacate id =>
    have := text_vacate (s := t) id
    have := load_vacate (s := t) id
    simp only [exec, Work.weight, Work.text]
    omega
  | dispatch id =>
    have := text_dispatch (s := t) id
    have := load_dispatch (s := t) id
    simp only [exec, Work.weight, Work.text]
    omega
  | chain id dependencies =>
    simp only [exec, text_chain, load_chain, Work.weight, Work.text]
    omega
  | await gate dependency =>
    have := load_await (s := t) gate dependency
    simp only [exec, text_await, Work.weight, Work.text]
    omega
  | release gate =>
    have := load_release (s := t) gate
    simp only [exec, text_release, Work.weight, Work.text]
    omega
  | endTask id =>
    have := text_endTask (s := t) id
    have := load_endTask (s := t) id
    simp only [exec, Work.weight, Work.text]
    omega
  | handOver id =>
    simp only [exec, text_handOver, load_handOver, Work.weight, Work.text]
    omega
  | park id body =>
    have := text_park (s := t) id body
    have := load_park (s := t) id body
    simp only [exec, Work.weight, Work.text]
    omega
  | finish id result =>
    have := text_finish (s := t) id result
    have := load_finish (s := t) id result
    simp only [exec, Work.weight, Work.text]
    omega

theorem text_startJob (id : Nat) : (s.startJob id).text ≤ s.text := by
  unfold startJob
  split
  · omega
  · rename_i e h
    have key (t : Machine D) (ht : t.entries = s.entries) (hw : t.work = s.work) (e' : Entry D)
        (hx : e'.text ≤ e.text) : (t.put id e').text ≤ s.text := by
      have hs : t.text = s.text := by simp only [text, ht, hw]
      have := text_put (s := t) (u := e') (by rw [ht]; exact h)
      omega
    repeat' split
    · rename_i hc
      refine key _ rfl rfl _ ?_
      simp only [Entry.text, Callback.text, hc]
      omega
    · rename_i outcome hc
      have hm : total (((outcome.map (Work.settle (D := D) id)).toList).map Work.text) = 0 := by
        cases outcome <;> simp [Work.text]
      simp only [text_push, List.map_append, total_append, hm, List.map_cons, List.map_nil,
        total_cons, total_nil, Work.text, Nat.zero_add]
      refine key _ rfl rfl _ ?_
      simp only [Entry.text, Callback.text, hc]
      omega
    · rename_i hc _
      simp only [text_push, List.map_cons, List.map_nil, total_cons, total_nil,
        Work.text, Nat.zero_add]
      refine key _ rfl rfl _ ?_
      simp only [Entry.text, Callback.text, hc]
      omega
    · rename_i hc _
      refine key _ rfl rfl _ ?_
      simp only [Entry.text, Callback.text, hc]
      omega
    · refine key _ rfl rfl _ ?_
      simp only [Entry.text]
      omega

theorem load_startJob {id : Nat} {e : Entry D} (h : s.entries[id]? = some e) :
    (s.startJob id).load + e.task.weight ≤ 6 + s.load := by
  unfold startJob
  rw [h]
  have key (t : Machine D) (ht : t.entries = s.entries) (hw : t.work = s.work)
      (hr : t.ready = s.ready) (e' : Entry D) (n : Nat)
      (hx : e'.weight + e.task.weight ≤ n + e.weight) :
      (t.put id e').load + e.task.weight ≤ n + s.load := by
    have hs : t.load = s.load := by simp only [load, ht, hw, hr]
    have := load_put (s := t) (u := e') (by rw [ht]; exact h)
    omega
  dsimp only
  repeat' split
  · rename_i hc
    refine key _ rfl rfl rfl _ _ ?_
    simp only [Entry.weight, Callback.weight, Task.weight]
    omega
  · rename_i outcome hc
    have hm : total (((outcome.map (Work.settle (D := D) id)).toList).map Work.weight) ≤ 1 := by
      cases outcome <;> simp [Work.weight]
    have := key (s.emit (.job id e.request.tripped)) rfl rfl rfl
      { e with task := .working, callback := .spent } 0 (by
        simp only [Entry.weight, Callback.weight, Task.weight]
        omega)
    simp only [load_push, List.map_append, total_append, List.map_cons, List.map_nil,
      total_cons, total_nil, Work.weight]
    omega
  · rename_i hc _
    have := key ((s.emit (.job id e.request.tripped)).emit (.woke id e.request.tripped)) rfl rfl
      rfl { e with task := .working, callback := .spent } 0 (by
        simp only [Entry.weight, Callback.weight, Task.weight]
        omega)
    simp only [load_push, List.map_cons, List.map_nil, total_cons, total_nil, Work.weight]
    omega
  · rename_i hc _
    refine key _ rfl rfl rfl _ _ ?_
    simp only [Entry.weight, Callback.weight, Task.weight]
    omega
  · refine key _ rfl rfl rfl _ _ ?_
    simp only [Entry.weight, Task.weight]
    omega

theorem text_closeOut (id : Nat) : (s.closeOut id).text = s.text := by
  unfold closeOut
  split
  · rfl
  · rename_i e h
    have := text_put (s := s) (u := { e with task := .ended }) h
    simp only [text_cancelThen, List.map_cons, List.map_nil, total_cons, total_nil,
      Work.text, Entry.text] at *
    split
    · rw [text_putPermit]
      omega
    · omega

theorem load_closeOut {id : Nat} {e : Entry D} (h : s.entries[id]? = some e) :
    (s.closeOut id).load + e.task.weight = 5 + s.load := by
  unfold closeOut
  rw [h]
  have := load_put (s := s) (u := { e with task := .ended }) h
  simp only [load_cancelThen, List.map_cons, List.map_nil, total_cons, total_nil,
    Work.weight, Entry.weight, Task.weight] at *
  split
  · rw [load_putPermit]
    omega
  · omega

theorem text_continueJob (id : Nat) : (s.continueJob id).text ≤ s.text := by
  unfold continueJob
  split
  · omega
  · rename_i e h
    split
    · rename_i outcome hc
      have hn : total ((panicNote e.kind outcome : List (Work D)).map Work.text) = 0 := by
        unfold panicNote panicTrace
        split <;> simp [Work.text]
      have := text_put (s := s) (u := { e with callback := .spent }) h
      simp only [text_push, List.map_append, total_append, hn, List.map_cons, List.map_nil,
        total_cons, total_nil, Work.text, Entry.text, Callback.text, hc] at *
      omega
    · rename_i hc
      split
      · have := text_put (s := s.emit (.woke id e.request.tripped))
          (u := { e with callback := .spent }) h
        simp only [text_push, text_emit, List.map_cons, List.map_nil, total_cons,
          total_nil, Work.text, Entry.text, Callback.text, hc] at *
        omega
      · omega
    · omega

theorem load_continueJob (id : Nat) : (s.continueJob id).load ≤ s.load := by
  unfold continueJob
  split
  · omega
  · rename_i e h
    split
    · rename_i outcome hc
      have hn : total ((panicNote e.kind outcome : List (Work D)).map Work.weight) ≤ 1 := by
        unfold panicNote panicTrace
        split <;> simp [Work.weight]
      have := load_put (s := s) (u := { e with callback := .spent }) h
      simp only [load_push, List.map_append, total_append, List.map_cons, List.map_nil,
        total_cons, total_nil, Work.weight, Entry.weight, Callback.weight, hc] at *
      omega
    · rename_i hc
      split
      · have := load_put (s := s.emit (.woke id e.request.tripped))
          (u := { e with callback := .spent }) h
        simp only [load_push, load_emit, List.map_cons, List.map_nil, total_cons,
          total_nil, Work.weight, Entry.weight, Callback.weight, hc] at *
        omega
      · omega
    · omega

theorem text_poll (id : Nat) : (s.poll id).text ≤ s.text := by
  unfold poll
  split
  · omega
  · rename_i e h
    repeat' split
    all_goals first
      | exact Nat.le_refl _
      | exact Nat.le_of_eq (text_closeOut id)
      | exact text_startJob id
      | exact text_continueJob id
      | skip
    · rename_i p _
      have := text_put (s := { s with permits := some p }) (u := { e with task := .queueing }) h
      simp only [text, Entry.text] at *
      omega

theorem load_poll (id : Nat) : (s.poll id).load ≤ s.load := by
  unfold poll
  split
  · omega
  · rename_i e h
    split
    · omega
    · omega
    · rename_i ht
      have hw : e.task.weight = 8 := by rw [ht]; rfl
      split
      · split
        · have := load_closeOut h
          omega
        · rename_i p _
          have := load_startJob (s := { s with permits := some p }) h
          simp only [load] at *
          omega
        · rename_i p _
          have := load_put (s := { s with permits := some p })
            (u := { e with task := .queueing }) h
          simp only [load, Entry.weight, Task.weight] at *
          omega
      · have := load_startJob h
        omega
    · rename_i ht
      have hw : e.task.weight = 8 := by rw [ht]; rfl
      split
      · have := load_closeOut h
        omega
      · omega
    · rename_i ht
      have hw : e.task.weight = 7 := by rw [ht]; rfl
      split
      · have := load_closeOut h
        omega
      · have := load_startJob h
        omega
    · exact load_continueJob id

/-- A poll leaves a machine below the one with the task still ready. -/
theorem poll_below {id : Nat} {rest : Agenda} (h : s.ready.next? = some (id, rest)) :
    (poll id { s with ready := rest }).Below s := by
  have ht := text_poll (s := { s with ready := rest }) id
  have hl := load_poll (s := { s with ready := rest }) id
  have hs := Agenda.size_of_next? h
  unfold Below
  simp only [text, load] at *
  omega

/-- A callback that advances performs some of its code. -/
theorem advance_below {id : Nat} {e : Entry D} (h : s.entries[id]? = some e)
    (hm : mayAdvance e) : (s.advance id).Below s := by
  refine .inl ?_
  unfold advance
  rw [h]
  dsimp only
  split
  · rename_i body hc
    have := text_put (s := s.pause.emit (.start id e.request.tripped))
      (u := { e with callback := .running }) h
    simp only [text_push, text_emit, text_pause, List.map_append, total_append,
      total_map_perform_text, Entry.text, Callback.text, hc, Body.size] at *
    split <;> simp only [List.map_append, total_append, total_map_perform_text, List.map_cons,
      List.map_nil, total_cons, total_nil, Work.text] <;> omega
  · rename_i body hc
    have := text_put (s := s.pause.emit (.resume id e.request.tripped))
      (u := { e with callback := .running }) h
    simp only [text_push, text_emit, text_pause, List.map_append, total_append,
      total_map_perform_text, Entry.text, Callback.text, hc, List.map_cons, List.map_nil,
      total_cons, total_nil, Work.text] at *
    omega
  · rename_i h1 h2
    unfold mayAdvance at hm
    split at hm
    · rename_i hc
      exact absurd hc (h1 _)
    · rename_i hc
      exact absurd hc (h2 _)
    · simp at hm

theorem step?_below {t : Machine D} (h : s.step? = some t) : t.Below s := by
  unfold step? at h
  split at h
  · simp at h
  · rename_i w rest hw
    obtain rfl := Option.some.inj h
    have := exec_below (s := s) w rest
    rwa [← hw] at this

theorem pollNext?_below {t : Machine D} (h : s.pollNext? = some t) : t.Below s := by
  unfold pollNext? at h
  split at h
  · simp at h
  · rename_i id rest hr
    obtain rfl := Option.some.inj h
    exact poll_below hr

theorem advanceNext?_below {t : Machine D} (h : s.advanceNext? = some t) : t.Below s := by
  unfold advanceNext? at h
  obtain ⟨id, hf, rfl⟩ := Option.map_eq_some_iff.mp h
  obtain ⟨hlt, hm, _⟩ := List.findIdx?_eq_some_iff_getElem.mp hf
  exact advance_below (List.getElem?_eq_getElem hlt) hm

/-- Whatever happens next by itself leaves a machine below the one before. -/
theorem next?_below {t : Machine D} (h : s.next? = some t) : t.Below s := by
  unfold next? at h
  cases h₁ : s.step? with
  | some u =>
    rw [h₁] at h
    obtain rfl := Option.some.inj h
    exact step?_below h₁
  | none =>
    rw [h₁] at h
    cases h₂ : s.pollNext? with
    | some u =>
      rw [h₂] at h
      obtain rfl := Option.some.inj h
      exact pollNext?_below h₂
    | none =>
      rw [h₂] at h
      exact advanceNext?_below h

theorem Below.lex {t : Machine D} (h : t.Below s) :
    Prod.Lex (· < ·) (· < ·) (t.text, t.load) (s.text, s.load) := by
  rcases h with h | ⟨h₁, h₂⟩
  · exact .left _ _ h
  · rcases Nat.lt_or_eq_of_le h₁ with h₁ | h₁
    · exact .left _ _ h₁
    · rw [h₁]
      exact .right _ h₂

end Machine

end RequestScheduler
