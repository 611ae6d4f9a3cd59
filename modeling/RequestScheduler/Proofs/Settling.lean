import RequestScheduler.Proofs.Opening
import RequestScheduler.Request.Script

/-!
# Latches and futures settle once

A request has a cell of its own for its outcome, and a future that was made settled has another. A
board shows these cells, and takes a continuation as a whole for its tag; what a continuation does
to the request is done to the board from outside, between the same wakes and runs
(`Pair.Act.echo`). An action does the same in a continuation as it does from outside, and it is
reported when all that it set off is carried out (`Pair.State.act_behind`).

So what holds of boards holds of latches and of futures (`Cell.settles_once`).
-/

namespace RequestScheduler

variable {V D : Type}

theorem Board.play_wakes (ws : List Nat) {b : Board V D} {rest : List (Board.Work V D)}
    (h : b.work = ws.map (fun w => .emit (.wake w)) ++ rest) :
    Board.play (List.replicate ws.length .item) b =
      { b with work := rest, events := (ws.map .wake).reverse ++ b.events } := by
  induction ws generalizing b with
  | nil =>
      obtain rfl := h
      rfl
  | cons w ws ih =>
      rw [List.length_cons, List.replicate_succ, play_cons, apply_item h, ih rfl]
      simp [exec, emit]

namespace Pair

/-- What a board shows of a continuation: all of it, as the tag. -/
def Reaction.quiet (r : Reaction D) : RequestScheduler.Reaction (Outcome D) (Reaction D) where
  tag := r
  actions := []

/-- Whether an event is a wake or the run of a continuation. -/
def Event.isSignal : Event D → Bool
  | .wake _ | .run _ => true
  | .acted .. => false

/-- What is seen of a request when this happens to the board. -/
def Event.ofBoard : Board.Event (Reaction D) → Option (Event D)
  | .wake waker => some (.wake waker)
  | .run r => some (.run r.tag)
  | .settle .. | .query .. => none

/-- What a board shows of a work item. -/
def Work.shown : Work D → Option (Board.Work (Outcome D) (Reaction D))
  | .run r => some (.run r.quiet)
  | .emit _ | .act _ => none

/-- Whether a work item is the report of an action. -/
def Work.isReport : Work D → Bool
  | .emit e => !e.isSignal
  | _ => false

/-- One thing that is done to a request. -/
inductive Move (D : Type) where
  /-- Carries out the first work item. -/
  | item
  | step (st : Step D)

namespace State

/-- The cells of a request: the settler's, and that of a future that was made settled. -/
def cells (s : State D) : List (Cell (Outcome D) Nat (Reaction D)) :=
  s.request.cell :: (s.ready.map (·.cell)).toList

/-- A request as a board shows it on which this has happened. -/
def board (s : State D) (events : List (Board.Event (Reaction D))) :
    Board (Outcome D) (Reaction D) where
  cells := s.cells.map (·.map Reaction.quiet)
  handles := List.range s.cells.length
  work := s.work.filterMap Work.shown
  events

/-- What has happened to the board is what was seen of the request. -/
def Seen (s : State D) (events : List (Board.Event (Reaction D))) : Prop :=
  events.filterMap Event.ofBoard = s.events.filter Event.isSignal

/-- The cell that the future looks at. -/
def place (s : State D) : Nat := if s.ready.isSome then 1 else 0

/-- The acts that a publication is: the settlement, and the wakes. -/
def publication (o : Outcome D) (s : State D) : List (Board.Act (Outcome D) (Reaction D)) :=
  .call 0 (.settle (s.request.resolve o)) :: List.replicate s.request.cell.wakers.length .item

/-- How many work items are carried out until nothing is left to be done. -/
def rounds (s : State D) : Nat :=
  match h : s.step? with
  | none => 0
  | some t =>
    have := step?_lt h
    t.rounds + 1
termination_by s.size

end State

/-- The acts that an action is. -/
def Act.echo (s : State D) (a : Act D) : List (Board.Act (Outcome D) (Reaction D)) :=
  if a.isConsumer && !s.held then []
  else match a with
    | .publish _ o => s.publication o
    | .cancel => s.trip.publication (.error .cancelled)
    | .abandon => s.publication (.error .cancelled)
    | .racePublish calls o => if calls = 0 then [] else s.publication o
    | .raceCancel calls => if calls = 0 then [] else s.trip.publication (.error .cancelled)
    | .futureCancel =>
      match s.ready with
      | none => s.trip.publication (.error .cancelled)
      | some _ => [.call 1 (.settle (.error .cancelled))]
    | .onSettled tag acts => [.call s.place (.register (Reaction.quiet { tag, acts }))]
    | .trip | .tripped | .settled | .status | .debug | .unknown _ => []

namespace Move

def apply (m : Move D) (s : State D) : State D :=
  match m with
  | .item => s.step?.getD s
  | .step (.act a) => s.act a []
  | .step st => (s.perform st).2

/-- The acts that a move is. -/
def echo (s : State D) : Move D → List (Board.Act (Outcome D) (Reaction D))
  | .item =>
    match s.work with
    | .act a :: _ => a.echo s
    | .run _ :: _ => [.item]
    | .emit _ :: _ | [] => []
  | .step (.act a) => a.echo s
  | .step (.poll waker) =>
    if s.held then [.call s.place (if s.future.isSettled then .take else .poll waker)] else []
  | .step .join => if s.held && s.future.isSettled then [.call s.place .take] else []
  | .step .collect => if s.joining && s.request.isSettled then [.call s.place .take] else []
  | .step _ => []

end Move

/-- The moves that a step of a script is: an action comes with all that it sets off. -/
def Step.moves (s : State D) : Step D → List (Move D)
  | .act a => .step (.act a) :: List.replicate (s.act a []).rounds .item
  | st => [.step st]

/-- The moves that the steps of a script are. -/
def moves : State D → List (Step D) → List (Move D)
  | _, [] => []
  | s, st :: script => st.moves s ++ moves (s.perform st).2 script

namespace State

variable {s t : State D} {after : List (Work D)}
  {events : List (Board.Event (Reaction D))}

/-- A future that was made settled is settled, and what is still to be reported are answers. -/
structure Steady (s : State D) : Prop where
  ready : ∀ {r}, s.ready = some r → r.isSettled = true
  reports : ∀ {e}, .emit e ∈ s.work → e.isSignal = false

theorem board_push (items : List (Work D)) (s : State D)
    (events : List (Board.Event (Reaction D))) :
    (s.push items).board events = (s.board events).push (items.filterMap Work.shown) := by
  rw [board, push, List.filterMap_append]
  rfl

theorem shown_run (ks : List (Reaction D)) :
    (ks.map Work.run).filterMap Work.shown = (ks.map Reaction.quiet).map .run := by
  induction ks with
  | nil => rfl
  | cons k ks ih => simpa [Work.shown] using ih

theorem shown_reports (h : after.all Work.isReport = true) : after.filterMap Work.shown = [] := by
  rw [List.filterMap_eq_nil_iff]
  intro w hw
  cases w with
  | emit e => rfl
  | act | run => cases List.all_eq_true.mp h _ hw

theorem seen_wakes (ws : List Nat) (h : s.Seen events) :
    ({ s with events := (ws.map .wake).reverse ++ s.events } : State D).Seen
      ((ws.map .wake).reverse ++ events) := by
  rw [Seen, List.filterMap_append, List.filter_append, h.symm]
  congr 1
  rw [List.filterMap_reverse, List.filter_reverse]
  congr 1
  induction ws with
  | nil => rfl
  | cons w ws ih => exact congrArg (Event.wake w :: ·) ih

/-! ### What an action sets off -/

/-- The work that stands behind an action does not matter to it: what it sets off comes first. -/
theorem act_behind (s : State D) (a : Act D) (after rest : List (Work D)) :
    ({ s with work := rest } : State D).act a after =
      { ({ s with work := [] } : State D).act a [] with
        work := (({ s with work := [] } : State D).act a []).work ++ after ++ rest } := by
  unfold act
  split
  · simp [push]
  · cases a with
    | racePublish calls o =>
        dsimp only
        split <;> simp [push, publish]
    | raceCancel calls =>
        dsimp only
        split <;> simp [push, publish, cancel, trip]
    | futureCancel =>
        cases s.ready <;> simp [push, publish, cancel, trip]
    | onSettled tag acts =>
        by_cases hf : (s.ready.getD s.request).isSettled = true <;> simp [future, hf, push]
    | _ => simp [push, publish, cancel, trip]

/-- An action sets off continuations and nothing else. -/
theorem exists_runs (s : State D) (a : Act D) :
    ∃ ks : List (Reaction D),
      (({ s with work := [] } : State D).act a []).work = ks.map .run := by
  have none : ∃ ks : List (Reaction D), ([] : List (Work D)) = ks.map .run := ⟨[], rfl⟩
  have all (o : Outcome D) (u : State D) (hu : u.work = []) :
      ∃ ks : List (Reaction D), (u.publish o []).work = ks.map .run :=
    ⟨_, by rw [publish, hu, List.append_nil, List.append_nil]⟩
  unfold act
  split
  · exact none
  · cases a with
    | publish | cancel | abandon => exact all _ _ rfl
    | racePublish | raceCancel =>
        dsimp only
        split
        · exact none
        · exact all _ _ rfl
    | futureCancel =>
        dsimp only
        split
        · exact all _ _ rfl
        · exact none
    | onSettled tag acts =>
        dsimp only
        split
        · exact ⟨[{ tag, acts }], rfl⟩
        · exact none
    | trip | tripped | settled | status | debug | unknown => exact none

/-! ### A board shows what an action does -/

/-- A board shows by these acts how a request goes on. -/
structure Shown (s : State D) (acts : List (Board.Act (Outcome D) (Reaction D))) (t : State D) :
    Prop where
  board : ∀ {events}, s.Seen events → ∃ later, t.Seen later ∧
    Board.play acts (s.board events) = t.board later
  steady : t.Steady

/-- A publication settles the settler's cell, and wakes at once whoever waits for it. -/
theorem board_publish (h : after.filterMap Work.shown = []) (o : Outcome D) (hs : s.Seen events) :
    ∃ later, (s.publish o after).Seen later ∧
      Board.play (s.publication o) (s.board events) = (s.publish o after).board later := by
  have hwork : ((Board.Act.call 0 (.settle (s.request.resolve o))).apply (s.board events)).work =
      s.request.cell.wakers.map (fun w => .emit (.wake w)) ++
        ((s.request.cell.continuations.map Reaction.quiet).map .run ++ (s.board events).work) := by
    show Board.waiting (s.request.cell.map Reaction.quiet) ++ [] ++ (s.board events).work = _
    simp [Board.waiting]
  refine ⟨_, seen_wakes s.request.cell.wakers hs, Eq.symm ?_⟩
  rw [publication, Board.play_cons, Board.play_wakes _ hwork, board, publish]
  simp only [List.filterMap_append, h, shown_run, List.append_nil]
  have hcell : (s.request.cell.settle (s.request.resolve o)).map Reaction.quiet =
      (s.request.cell.map Reaction.quiet).settle (s.request.resolve o) := Cell.map_settle _ _ _
  simp only [cells, Request.publish, List.map_cons, hcell]
  rfl

/-- The cell that the future looks at is that of its request. -/
theorem getElem?_place (s : State D) (events : List (Board.Event (Reaction D))) :
    (s.board events).cells[s.place]? = some (s.future.cell.map Reaction.quiet) := by
  cases h : s.ready with
  | none => simp [board, cells, place, future, h]
  | some r => simp [board, cells, place, future, h]

theorem Steady.isSettled (hs : s.Steady) (hr : s.ready ≠ none) : s.future.isSettled = true := by
  obtain ⟨r, h⟩ := Option.ne_none_iff_exists'.mp hr
  rw [future, h]
  exact hs.ready h

theorem board_futureCancel (hs : s.Steady) {r : Request D Nat (Reaction D)}
    (h : s.ready = some r) (events : List (Board.Event (Reaction D))) :
    Board.play [.call 1 (.settle (.error .cancelled))] (s.board events) =
      ({ s with ready := some r.cancel } : State D).board events := by
  have hready : r.isSettled = true := hs.ready h
  have hsame : r.cancel.cell = r.cell := Cell.settle_of_isSettled hready
  have hcell : (s.board events).cells[1]? = some (r.cell.map Reaction.quiet) := by
    simp [board, cells, h]
  have hset : (r.cell.map Reaction.quiet).isSettled = true :=
    (Cell.isSettled_map _ _).trans hready
  have hcall : Board.play [.call 1 (.settle (.error .cancelled))] (s.board events) =
      s.board events := Board.settle_of_isSettled hcell hset _ []
  rw [hcall, board, board, cells, cells, h]
  simp [hsame]

theorem board_onSettled (hs : s.Steady) (h : after.filterMap Work.shown = [])
    (r : Reaction D) (events : List (Board.Event (Reaction D))) :
    Board.play [.call s.place (.register r.quiet)] (s.board events) =
      (if s.future.isSettled then s.push (.run r :: after)
        else { s with request := s.request.register r }.push after).board events := by
  show (s.board events).register s.place r.quiet = _
  have hcell := s.getElem?_place events
  have hset : (s.future.cell.map Reaction.quiet).isSettled = s.future.isSettled :=
    Cell.isSettled_map _ _
  rw [Board.register, hcell]
  dsimp only
  rw [hset]
  split
  · have hshown : Work.shown (.run r) = some (.run r.quiet) := rfl
    rw [board_push, List.filterMap_cons_some hshown, h]
  · rename_i hf
    have hr : s.ready = none := Classical.byContradiction fun hr => hf (hs.isSettled hr)
    have hregister : (s.request.cell.register r).map Reaction.quiet =
      (s.request.cell.map Reaction.quiet).register r.quiet := Cell.map_register _ _ _
    rw [board_push, h, place, future, hr]
    simp only [board, cells, Request.register, List.map_cons, hregister, hr]
    rfl

theorem board_act (hs : s.Steady) (h : after.filterMap Work.shown = []) (a : Act D)
    (hseen : s.Seen events) : ∃ later, (s.act a after).Seen later ∧
      Board.play (a.echo s) (s.board events) = (s.act a after).board later := by
  have still (u : State D) (hu : u.Seen events) (hboard : u.board events = s.board events) :
      ∃ later, (u.push after).Seen later ∧
        Board.play [] (s.board events) = (u.push after).board later :=
    ⟨events, hu, by rw [board_push, h, hboard]; rfl⟩
  unfold act Act.echo
  split
  · exact still s hseen rfl
  · cases a with
    | publish name o | abandon => exact board_publish h _ hseen
    | cancel => exact board_publish (s := s.trip) h _ hseen
    | racePublish calls o =>
      dsimp only
      split
      · exact still s hseen rfl
      · exact board_publish h _ hseen
    | raceCancel calls =>
      dsimp only
      split
      · exact still s hseen rfl
      · exact board_publish (s := s.trip) h _ hseen
    | futureCancel =>
      cases hr : s.ready with
      | none => exact board_publish (s := s.trip) h _ hseen
      | some r =>
          refine ⟨events, hseen, ?_⟩
          dsimp only
          rw [board_push, h, board_futureCancel hs hr]
          rfl
    | onSettled tag acts =>
        refine ⟨events, ?_, board_onSettled hs h { tag, acts } events⟩
        dsimp only
        split <;> exact hseen
    | trip | tripped | settled | status | debug | unknown => exact still _ hseen rfl

theorem Steady.act (hs : s.Steady) (h : after.all Work.isReport = true) (a : Act D) :
    (s.act a after).Steady := by
  constructor
  · intro r hr
    unfold State.act at hr
    split at hr
    · exact hs.ready hr
    · cases a with
      | futureCancel =>
          dsimp only at hr
          split at hr
          · exact hs.ready hr
          · obtain rfl := Option.some.inj hr
            exact Request.isSettled_publish _ _
      | onSettled | racePublish | raceCancel =>
          dsimp only at hr
          split at hr <;> exact hs.ready hr
      | _ => exact hs.ready hr
  · intro e he
    rw [show s = { s with work := s.work } from rfl, act_behind] at he
    obtain ⟨ks, hks⟩ := exists_runs s a
    rw [List.mem_append, List.mem_append, hks] at he
    obtain (he | he) | he := he
    · obtain ⟨k, _, hk⟩ := List.mem_map.mp he
      cases hk
    · simpa [Work.isReport] using List.all_eq_true.mp h _ he
    · exact hs.reports he

/-- A board does not show who has the future. -/
theorem Shown.idle (hs : s.Steady) (held joining : Bool) :
    Shown s [] { s with held, joining } :=
  ⟨fun {events} h => ⟨events, h, rfl⟩, hs.ready, hs.reports⟩

theorem Shown.refl (hs : s.Steady) : Shown s [] s := ⟨fun {events} h => ⟨events, h, rfl⟩, hs⟩

theorem Shown.trans {u : State D} {acts more : List (Board.Act (Outcome D) (Reaction D))}
    (h : Shown s acts t) (h' : Shown t more u) : Shown s (acts ++ more) u := by
  refine ⟨fun {events} hseen => ?_, h'.steady⟩
  obtain ⟨later, hlater, hboard⟩ := h.board hseen
  rw [Board.play_append, hboard]
  exact h'.board hlater

theorem shown_act (hs : s.Steady) (h : after.all Work.isReport = true) (a : Act D) :
    Shown s (a.echo s) (s.act a after) :=
  ⟨board_act hs (shown_reports h) a, hs.act h a⟩

/-- The future hands the outcome of its request out. -/
theorem shown_takeOutcome (hs : s.Steady) (held joining : Bool) :
    Shown s [.call s.place .take] ({ s with held, joining } : State D).takeOutcome := by
  constructor
  · intro events hseen
    refine ⟨events, ?_, ?_⟩
    · unfold takeOutcome
      split <;> exact hseen
    · show { s.board events with cells := (s.board events).cells.modify s.place (·.take.2) } = _
      cases h : s.ready <;> simp [takeOutcome, State.board, cells, place, h, Request.take]
  · unfold takeOutcome
    split
    · exact ⟨hs.ready, hs.reports⟩
    · rename_i r hr
      refine ⟨fun {r'} hr' => ?_, hs.reports⟩
      obtain rfl := Option.some.inj hr'
      exact (Cell.isSettled_take r.cell).trans (hs.ready hr)

theorem shown_await (hs : s.Steady) (hf : s.future.isSettled = false) (waker : Nat) :
    Shown s [.call s.place (.poll waker)] (s.await waker) := by
  have hr : s.ready = none := Classical.byContradiction fun hr => by
    simp [hs.isSettled hr] at hf
  refine ⟨fun {events} hseen => ⟨events, hseen, ?_⟩, hs.ready, hs.reports⟩
  show (s.board events).await s.place waker = _
  rw [Board.await, getElem?_place]
  simp [await, State.board, cells, place, future, hr, Request.await]

/-! ### A board shows what a move does -/

theorem Steady.tail (hs : s.Steady) {w : Work D} {rest : List (Work D)} (h : s.work = w :: rest) :
    ({ s with work := rest } : State D).Steady :=
  ⟨hs.ready, fun he => hs.reports (h ▸ List.mem_cons_of_mem _ he)⟩

/-- What a board does not show of the work makes no difference to it. -/
theorem board_tail {w : Work D} {rest : List (Work D)} (h : s.work = w :: rest)
    (hw : w.shown = none) (events : List (Board.Event (Reaction D))) :
    ({ s with work := rest } : State D).board events = s.board events := by
  rw [board, board, h, List.filterMap_cons_none hw]
  rfl

theorem shown_item (hs : s.Steady) (w : Work D) {rest : List (Work D)} (h : s.work = w :: rest) :
    Shown s (Move.item.echo s) (exec w { s with work := rest }) := by
  have hrest := hs.tail h
  cases w with
  | act a =>
      have hecho : Move.item.echo s = a.echo s := by rw [Move.echo, h]
      have hact : Shown { s with work := rest } (a.echo s) (exec (.act a) { s with work := rest }) :=
        shown_act hrest rfl a
      rw [hecho]
      refine ⟨fun {events} hseen => ?_, hact.steady⟩
      rw [← board_tail h rfl]
      exact hact.board hseen
  | run r =>
      have hecho : Move.item.echo s = [.item] := by rw [Move.echo, h]
      have hacts : (r.acts.map Work.act).filterMap Work.shown = [] := by simp [Work.shown]
      refine ⟨fun {events} hseen => ⟨.run r :: events, ?_, ?_⟩, hs.ready, fun {e} he => ?_⟩
      · exact congrArg (Event.run r.tag :: ·) hseen
      · have hwork : (s.board events).work = .run r.quiet :: rest.filterMap Work.shown := by
          rw [State.board, h]
          rfl
        rw [hecho, Board.play_cons, Board.play_nil, Board.apply_item hwork, exec, board_push,
          hacts]
        rfl
      · obtain he | he := List.mem_append.mp he
        · simp at he
        · exact hrest.reports he
  | emit e =>
      have hecho : Move.item.echo s = [] := by rw [Move.echo, h]
      have he : e.isSignal = false := hs.reports (h ▸ List.mem_cons_self)
      refine ⟨fun {events} hseen => ⟨events, ?_, ?_⟩, hrest.ready, hrest.reports⟩
      · exact hseen.trans (List.filter_cons_of_neg (by simp [he])).symm
      · rw [hecho, ← board_tail h rfl]
        rfl

/-- Every move of a request is the acts that a board shows it by. -/
theorem shown_move (hs : s.Steady) (m : Move D) : Shown s (m.echo s) (m.apply s) := by
  cases m with
  | item =>
      rw [Move.apply, step?]
      cases h : s.work with
      | nil =>
          have hecho : Move.item.echo s = [] := by rw [Move.echo, h]
          rw [hecho]
          exact .refl hs
      | cons w rest => exact shown_item hs w h
  | step st =>
      cases st with
      | act a => exact shown_act hs rfl a
      | poll waker =>
          simp only [Move.apply, perform, Move.echo]
          cases s.held with
          | false => exact .refl hs
          | true =>
              cases hf : s.future.isSettled with
              | true => exact shown_takeOutcome hs s.held s.joining
              | false => exact shown_await hs hf waker
      | join =>
          simp only [Move.apply, perform, Move.echo]
          cases s.held with
          | false => exact .refl hs
          | true =>
              cases s.future.isSettled with
              | true => exact shown_takeOutcome hs false s.joining
              | false => exact .refl hs
      | collect =>
          simp only [Move.apply, perform, Move.echo]
          cases s.joining with
          | false => exact .refl hs
          | true =>
              cases s.request.isSettled with
              | true => exact shown_takeOutcome hs s.held false
              | false => exact .refl hs
      | joinThread =>
          simp only [Move.apply, perform, Move.echo]
          cases s.held with
          | false => exact .refl hs
          | true => exact .idle hs false true
      | drop =>
          simp only [Move.apply, perform, Move.echo]
          cases s.held with
          | false => exact .refl hs
          | true => exact .idle hs false s.joining
      | wait | waitTimeout =>
          simp only [Move.apply, perform, Move.echo]
          cases s.held <;> exact .refl hs
      | invalid => exact .refl hs

/-- Makes one move after the other. -/
def proceed (moves : List (Move D)) (s : State D) : State D := moves.foldl (fun s m => m.apply s) s

theorem proceed_append (l m : List (Move D)) (s : State D) :
    s.proceed (l ++ m) = (s.proceed l).proceed m :=
  List.foldl_append

end State

/-- The acts that moves are. -/
def echoes : State D → List (Move D) → List (Board.Act (Outcome D) (Reaction D))
  | _, [] => []
  | s, m :: moves => m.echo s ++ echoes (m.apply s) moves

/-- The acts that make the cells of a request. -/
def opening : Option (Outcome D) → List (Board.Act (Outcome D) (Reaction D))
  | none => [.make]
  | some o => [.make, .make, .call 1 (.settle o)]

namespace State

variable {s : State D} {events : List (Board.Event (Reaction D))}

/-- Whatever is done to a request, a board shows it by the acts that this is. -/
theorem shown_proceed (hs : s.Steady) (moves : List (Move D)) :
    Shown s (echoes s moves) (s.proceed moves) := by
  induction moves generalizing s with
  | nil => exact .refl hs
  | cons m moves ih =>
      have hmove := shown_move hs m
      exact hmove.trans (ih hmove.steady)

theorem steady_start (tripped : Bool) (ready : Option (Outcome D)) :
    (start tripped ready).Steady := by
  refine ⟨fun {r} hr => ?_, fun {e} he => ?_⟩
  · obtain ⟨o, _, rfl⟩ := Option.map_eq_some_iff.mp hr
    exact Request.isSettled_publish o {}
  · cases he

theorem board_start (tripped : Bool) (ready : Option (Outcome D)) :
    Board.after (opening ready) = (start tripped ready).board [] := by
  cases ready <;> rfl

/-- The work of a request comes to an end. -/
theorem proceed_rounds (s : State D) : s.proceed (List.replicate s.rounds .item) = s.drain := by
  cases hstep : s.step? with
  | none =>
      have hrounds : s.rounds = 0 := by rw [rounds]; split <;> simp_all
      have hdrain : s.drain = s := by rw [drain]; split <;> simp_all
      rw [hrounds, hdrain]
      rfl
  | some t =>
      have := step?_lt hstep
      have hrounds : s.rounds = t.rounds + 1 := by rw [rounds]; split <;> simp_all
      have hdrain : s.drain = t.drain := by rw [drain]; split <;> simp_all
      have happly : Move.item.apply s = t := by rw [Move.apply, hstep, Option.getD_some]
      rw [hrounds, List.replicate_succ, proceed, List.foldl_cons, happly, hdrain]
      exact proceed_rounds t
termination_by s.size

theorem perform_moves (s : State D) (st : Step D) :
    (s.perform st).2 = s.proceed (st.moves s) := by
  cases st with
  | act a => exact (proceed_rounds (s.act a [])).symm
  | _ => rfl

/-- A script makes the moves that its steps are. -/
theorem run_moves (script : List (Step D)) (s : State D) :
    (s.run script).2 = s.proceed (moves s script) := by
  induction script generalizing s with
  | nil => rfl
  | cons st script ih =>
      rw [moves, proceed_append, ← perform_moves]
      exact ih _

theorem work_takeOutcome (s : State D) : s.takeOutcome.work = s.work := by
  unfold takeOutcome
  split <;> rfl

theorem work_perform (h : s.work = []) (st : Step D) : (s.perform st).2.work = [] := by
  cases st with
  | act a => exact work_drain _
  | poll | join | collect =>
      simp only [perform]
      split
      · split
        · exact (work_takeOutcome _).trans h
        · exact h
      · exact h
  | joinThread | drop | wait | waitTimeout =>
      simp only [perform]
      split <;> exact h
  | invalid => exact h

/-- A script leaves nothing to be done. -/
theorem work_run (script : List (Step D)) {s : State D} (h : s.work = []) :
    (s.run script).2.work = [] := by
  induction script generalizing s with
  | nil => exact h
  | cons st script ih => exact ih (work_perform h st)

/-! ### A script reports all that happens -/

theorem events_act (a : Act D) (after : List (Work D)) (s : State D) :
    s.events <:+ (s.act a after).events := by
  unfold act
  split
  · exact List.suffix_refl _
  · cases a with
    | publish | cancel | abandon => exact List.suffix_append _ _
    | racePublish | raceCancel =>
        dsimp only
        split
        · exact List.suffix_refl _
        · exact List.suffix_append _ _
    | futureCancel =>
        dsimp only
        split
        · exact List.suffix_append _ _
        · exact List.suffix_refl _
    | onSettled =>
        dsimp only
        split <;> exact List.suffix_refl _
    | trip | tripped | settled | status | debug | unknown => exact List.suffix_refl _

theorem events_takeOutcome (s : State D) : s.takeOutcome.events = s.events := by
  unfold takeOutcome
  split <;> rfl

/-- What has happened is never taken back. -/
theorem events_move (m : Move D) (s : State D) : s.events <:+ (m.apply s).events := by
  cases m with
  | item =>
      rw [Move.apply, step?]
      cases s.work with
      | nil => exact List.suffix_refl _
      | cons w rest =>
          cases w with
          | act a => exact events_act a _ { s with work := rest }
          | run r => exact List.suffix_cons _ _
          | emit e => exact List.suffix_cons _ _
  | step st =>
      cases st with
      | act a => exact events_act a [] s
      | poll | join | collect =>
          simp only [Move.apply, perform]
          split
          · split
            · exact (events_takeOutcome _).symm ▸ List.suffix_refl _
            · exact List.suffix_refl _
          · exact List.suffix_refl _
      | joinThread | drop | wait | waitTimeout =>
          simp only [Move.apply, perform]
          split <;> exact List.suffix_refl _
      | invalid => exact List.suffix_refl _

theorem events_proceed (moves : List (Move D)) (s : State D) :
    s.events <:+ (s.proceed moves).events := by
  induction moves generalizing s with
  | nil => exact List.suffix_refl _
  | cons m moves ih => exact (events_move m s).trans (ih (m.apply s))

theorem events_perform (st : Step D) (s : State D) : s.events <:+ (s.perform st).2.events := by
  rw [perform_moves]
  exact events_proceed _ _

/-- The reports of a script are all that happens, in its order. -/
theorem events_run (script : List (Step D)) (s : State D) :
    s.events.reverse ++ (s.run script).1.flatMap (·.events) = (s.run script).2.events.reverse := by
  induction script generalizing s with
  | nil => exact List.append_nil _
  | cons st script ih =>
      have hstep : s.events.reverse ++ (s.step st).1.events = (s.perform st).2.events.reverse :=
        reverse_append_reverse_take (events_perform st s)
      rw [run, List.flatMap_cons, ← List.append_assoc, hstep]
      exact ih _

end State

/-- What a request has come to by moves that are these acts. -/
structure Settling (s : State D) (acts : List (Board.Act (Outcome D) (Reaction D))) : Prop where
  /-- A board shows its cells and the continuations that are to run, -/
  board : Board.after acts = s.board (Board.after acts).events
  /-- and whom it has woken and what has run. -/
  seen : s.Seen (Board.after acts).events
  law : Board.Settling acts
  /-- A continuation that runs is seen to run, and what it does comes next. -/
  runs : ∀ {r : Reaction D} {rest : List (Work D)}, s.work = .run r :: rest →
    Move.item.apply s =
      { s with work := r.acts.map .act ++ rest, events := .run r.tag :: s.events }
  /-- An action of a continuation does what it does from outside. It is reported with its answer
  when all that it set off is carried out. -/
  acted : ∀ {a : Act D} {rest : List (Work D)} {t : State D}, s.work = .act a :: rest →
    (Move.step (.act a)).apply { s with work := [] } = t →
    Move.item.apply s =
      { t with work := t.work ++ .emit (.acted a.name (s.answer .badStep a)) :: rest }
  reported : ∀ {e : Event D} {rest : List (Work D)}, s.work = .emit e :: rest →
    e.isSignal = false ∧
      Move.item.apply s = { s with work := rest, events := e :: s.events }
  /-- Without work there is nothing to carry out. -/
  idle : s.work = [] → Move.item.apply s = s
  /-- From outside an action has the same answer. -/
  answered : ∀ a, (s.perform (.act a)).1 = s.answer .noFuture a
  /-- An attempt to settle the request is told whether it is the first. -/
  told : ∀ {a : Act D}, (∃ name o, a = .publish name o) ∨ a = .cancel ∨ a = .abandon →
    ∀ gone, s.answer gone a = .flag (!Cell.attempted (Board.calls acts 0))
  /-- Of several attempts at once, one settles the request unless somebody has tried before. -/
  raced : ∀ {a : Act D} {n : Nat}, (∃ o, a = .racePublish n o) ∨ a = .raceCancel n →
    ∀ gone, s.answer gone a =
      .number (if n = 0 then 0 else (!Cell.attempted (Board.calls acts 0)).toNat)
  /-- The future cancels the request that it looks at. -/
  cancelled : s.held = true →
    ∀ gone, s.answer gone .futureCancel = .flag (!Cell.attempted (Board.calls acts s.place))
  /-- A poll is told that the future is pending as long as nobody has attempted to settle it. -/
  polled : s.held = true → ∀ waker,
    (s.perform (.poll waker)).1 = .pending ↔ Cell.attempted (Board.calls acts s.place) = false

section

variable {s : State D} {acts : List (Board.Act (Outcome D) (Reaction D))}
  {events : List (Board.Event (Reaction D))}

/-- The settler's request is settled once somebody has attempted to settle its cell. -/
theorem attempted_request (h : Board.after acts = s.board events) :
    Cell.attempted (Board.calls acts 0) = s.request.isSettled := by
  have hc : (Board.after acts).cells[0]? = some (s.request.cell.map Reaction.quiet) := by
    rw [h]
    rfl
  exact (Board.isSettled_after hc).symm.trans (Cell.isSettled_map _ _)

theorem attempted_place (h : Board.after acts = s.board events) :
    Cell.attempted (Board.calls acts s.place) = s.future.isSettled := by
  have hc : (Board.after acts).cells[s.place]? = some (s.future.cell.map Reaction.quiet) := by
    rw [h]
    exact s.getElem?_place events
  exact (Board.isSettled_after hc).symm.trans (Cell.isSettled_map _ _)

theorem apply_item {w : Work D} {rest : List (Work D)} (h : s.work = w :: rest) :
    Move.item.apply s = State.exec w { s with work := rest } := by
  rw [Move.apply, State.step?, h]
  rfl

/-- A poll is told that the future is pending exactly as long as it is not settled. -/
theorem poll_eq_pending_iff (hh : s.held = true) (waker : Nat) :
    (s.perform (.poll waker)).1 = .pending ↔ s.future.isSettled = false := by
  simp only [State.perform, hh, if_true]
  cases hset : s.future.isSettled with
  | false => simp
  | true =>
      simp only [if_true, State.outcomeOr]
      split <;> simp

end

/-- Whatever is done to a request. -/
theorem settling (tripped : Bool) (ready : Option (Outcome D)) (moves : List (Move D)) :
    Settling ((State.start tripped ready).proceed moves)
      (opening ready ++ echoes (.start tripped ready) moves) := by
  have hshown := State.shown_proceed (State.steady_start tripped ready) moves
  have hstart : (State.start tripped ready).Seen [] := rfl
  obtain ⟨events, hseen, hplay⟩ := hshown.board hstart
  have hboard : Board.after (opening ready ++ echoes (.start tripped ready) moves) =
      ((State.start tripped ready).proceed moves).board events := by
    rw [Board.after, Board.play_append, ← Board.after, State.board_start]
    exact hplay
  generalize opening ready ++ echoes (.start tripped ready) moves = acts at hboard ⊢
  generalize (State.start tripped ready).proceed moves = s at hshown hseen hboard ⊢
  constructor
  · exact hboard.trans (congrArg s.board (congrArg Board.events hboard).symm)
  · rw [hboard]
    exact hseen
  · exact Board.settling acts
  · exact fun h => apply_item h
  · rintro a rest t h rfl
    rw [apply_item h, State.exec, State.act_behind, List.append_assoc]
    rfl
  · exact fun h => ⟨hshown.steady.reports (h ▸ List.mem_cons_self), apply_item h⟩
  · intro h
    rw [Move.apply, State.step?, h]
    rfl
  · exact fun a => rfl
  · intro a ha gone
    rw [attempted_request hboard]
    obtain ⟨name, o, rfl⟩ | rfl | rfl := ha <;> rfl
  · intro a n ha gone
    rw [attempted_request hboard]
    obtain ⟨o, rfl⟩ | rfl := ha <;> rfl
  · intro hh gone
    rw [attempted_place hboard, State.answer, hh]
    rfl
  · intro hh waker
    rw [attempted_place hboard]
    exact poll_eq_pending_iff hh waker

end Pair

/-- Latches and futures settle once. The acts on a board are calls from outside and pieces of the
work that they set off, in any order: what comes of them is said by `Board.Settling`. The steps of a
script for latches are acts on a board, and so is all that is done to a request and to its future.
An attempt to open a latch, or to settle a request, is answered by whether it was the first. A
script carries out all that its steps set off, and reports all that happens, in its order. -/
theorem Cell.settles_once :
    (∀ acts : List (Board.Act V D), Board.Settling acts) ∧
    (∀ script : List (Latch.Step D),
      Latch.Settling (Latch.State.run script {}).2 (.make :: Latch.echoes {} script) ∧
      (Latch.State.run script {}).1.flatMap (·.events) =
        (Latch.State.run script {}).2.board.events.reverse) ∧
    ∀ (tripped : Bool) (ready : Option (Outcome D)),
      (∀ moves : List (Pair.Move D),
        Pair.Settling ((Pair.State.start tripped ready).proceed moves)
          (Pair.opening ready ++ Pair.echoes (.start tripped ready) moves)) ∧
      ∀ script : List (Pair.Step D),
        ((Pair.State.start tripped ready).run script).2 =
          (Pair.State.start tripped ready).proceed (Pair.moves (.start tripped ready) script) ∧
        ((Pair.State.start tripped ready).run script).2.work = [] ∧
        ((Pair.State.start tripped ready).run script).1.flatMap (·.events) =
          ((Pair.State.start tripped ready).run script).2.events.reverse := by
  refine ⟨Board.settling, fun script => ⟨Latch.settling script, ?_⟩, fun tripped ready =>
    ⟨Pair.settling tripped ready, fun script =>
      ⟨Pair.State.run_moves script _, Pair.State.work_run script rfl, ?_⟩⟩⟩
  · exact Latch.State.events_run (s := {}) script rfl
  · exact Pair.State.events_run script (.start tripped ready)

/-- Two wakers and three continuations, one of which settles another cell, registers a fourth
continuation and attempts to settle its own cell again. -/
def Board.nested : List (Board.Act Unit Nat) :=
  [.make, .make, .call 0 (.poll 7), .call 0 (.poll 8), .call 0 (.poll 7),
    .call 0 (.register
      { tag := 1, actions := [.settle 1 10 (), .register 0 2 [], .settle 0 11 ()] }),
    .call 1 (.register { tag := 3, actions := [] }),
    .call 0 (.register { tag := 4, actions := [.query 0 12] }), .call 0 (.settle ())] ++
  List.replicate 20 .item

example : (Board.after Board.nested).events.reverse = [.wake 7, .wake 8, .run 1, .run 3,
    .settle 10 true, .run 2, .settle 11 false, .run 4, .query 12 true] := by
  decide

end RequestScheduler
