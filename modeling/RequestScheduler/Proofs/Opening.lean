import RequestScheduler.Latch.Script
import RequestScheduler.Proofs.Balance

/-!
# Latches open once

A latch is opened by settling a cell of a board. Every step of a script for latches is one act with
all that it sets off (`Latch.Step.echo`), so that a script is a list of acts on a board
(`Latch.State.board_run`). What the script is told of a latch is whether somebody has attempted to
open it.
-/

namespace RequestScheduler

variable {V D : Type}

/-- What a list has gained in front, after what it was. -/
theorem reverse_append_reverse_take {α : Type} {l m : List α} (h : l <:+ m) :
    l.reverse ++ (m.take (m.length - l.length)).reverse = m.reverse := by
  obtain ⟨k, rfl⟩ := h
  simp

theorem Board.work_await (i waker : Nat) (b : Board V D) : (b.await i waker).work = b.work := by
  rw [await]
  split <;> rfl

/-- A poll of a settled cell leaves no waker. -/
theorem Board.await_of_isSettled {b : Board V D} {i : Nat}
    (h : ((b.cells[i]?).map Cell.isSettled).getD false = true) (waker : Nat) :
    b.await i waker = b := by
  cases hc : b.cells[i]? with
  | none => rw [await, hc]
  | some c =>
      rw [hc] at h
      obtain ⟨v, taken, rfl⟩ := Cell.exists_of_isSettled (c := c) h
      have hsame : b.cells.set i ((Cell.settled v taken).await waker) = b.cells :=
        set_of_getElem? hc
      rw [await, hc]
      dsimp only
      rw [hsame]

namespace Board

variable {b : Board V D} {a : Act V D}

/-- Every handle names a cell. -/
def Named (b : Board V D) : Prop := ∀ i ∈ b.handles, i < b.cells.length

/-- A work item changes cells and work, and adds to what has happened. -/
theorem exists_of_exec (w : Work V D) (b : Board V D) : ∃ cells work later,
    exec w b = { b with cells, work, events := later ++ b.events } := by
  have still : ∃ cells work later, b = { b with cells, work, events := later ++ b.events } :=
    ⟨b.cells, b.work, [], rfl⟩
  cases w with
  | run r => exact ⟨b.cells, r.actions.map .perform ++ b.work, [.run r.tag], rfl⟩
  | emit e => exact ⟨b.cells, b.work, [e], rfl⟩
  | perform action =>
      rw [exec]
      cases hp : b.cell? action.handle with
      | none =>
          rw [perform_of_none hp]
          exact still
      | some p =>
          obtain ⟨i, c⟩ := p
          have hc := getElem?_of_cell? hp
          cases action with
          | settle handle label v =>
              rw [Action.handle] at hp
              rw [perform, hp]
              exact ⟨_, _, [], settle_eq hc v _⟩
          | query handle label =>
              rw [Action.handle] at hp
              rw [perform_query hp]
              exact ⟨b.cells, b.work, [.query label c.isSettled], rfl⟩
          | register handle tag actions =>
              rw [Action.handle] at hp
              rw [perform, hp]
              exact ⟨_, _, [], register_eq hc _⟩

theorem exists_of_item (b : Board V D) : ∃ cells work later,
    Act.item.apply b = { b with cells, work, events := later ++ b.events } := by
  cases h : b.work with
  | nil => exact ⟨b.cells, b.work, [], apply_item_of_nil h⟩
  | cons w rest =>
      obtain ⟨cells, work, later, hexec⟩ := exists_of_exec w { b with work := rest }
      exact ⟨cells, work, later, (apply_item h).trans hexec⟩

/-- What has happened is never taken back. -/
theorem events_apply (a : Act V D) (b : Board V D) : b.events <:+ (a.apply b).events := by
  cases a with
  | item =>
      obtain ⟨cells, work, later, hitem⟩ := exists_of_item b
      exact ⟨later, (congrArg Board.events hitem).symm⟩
  | make | clone => exact List.suffix_refl _
  | call i x =>
      cases hc : b.cells[i]? with
      | none => simp only [Act.apply, call_of_none hc, List.suffix_refl]
      | some c => simp only [Act.apply, call_eq hc, List.suffix_refl]

theorem events_play (acts : List (Act V D)) (b : Board V D) :
    b.events <:+ (play acts b).events := by
  induction acts generalizing b with
  | nil => exact List.suffix_refl _
  | cons a acts ih => exact (events_apply a b).trans (ih (a.apply b))

theorem length_cells_le (a : Act V D) (b : Board V D) :
    b.cells.length ≤ (a.apply b).cells.length := by
  cases h : a.call? b with
  | some p => exact (length_apply_of_call h).ge
  | none =>
      obtain ⟨hsame | hnew, _⟩ := Act.apply_of_none h
      · rw [hsame]
      · rw [hnew]
        simp

/-- Handles go on naming cells, unless one is made for no cell. -/
theorem Named.apply (h : b.Named) (ha : ∀ i, a = .clone i → i < b.cells.length) :
    (a.apply b).Named := by
  have hlen := length_cells_le a b
  have old {j : Nat} (hj : j ∈ b.handles) : j < (a.apply b).cells.length :=
    Nat.lt_of_lt_of_le (h j hj) hlen
  intro j hj
  cases a with
  | item =>
      obtain ⟨cells, work, later, hitem⟩ := exists_of_item b
      exact old (congrArg Board.handles hitem ▸ hj)
  | make =>
      obtain hj | hj := List.mem_append.mp hj
      · exact old hj
      · obtain rfl := List.mem_singleton.mp hj
        simp [Act.apply, make]
  | clone i =>
      obtain hj | hj := List.mem_append.mp hj
      · exact old hj
      · obtain rfl := List.mem_singleton.mp hj
        exact ha j rfl
  | call i x =>
      refine old ?_
      cases hc : b.cells[i]? with
      | none => rwa [Act.apply, call_of_none hc] at hj
      | some c => rwa [Act.apply, call_eq hc] at hj

theorem Named.items (h : b.Named) (n : Nat) : (play (List.replicate n .item) b).Named := by
  induction n generalizing b with
  | zero => exact h
  | succ n ih =>
      refine ih (h.apply fun i hi => ?_)
      cases hi

/-- A cell is settled once somebody has attempted to settle it, and one that is not there is not. -/
theorem isSettled_getD {acts : List (Act V D)} (i : Nat) :
    (((after acts).cells[i]?).map Cell.isSettled).getD false = Cell.attempted (calls acts i) := by
  cases hc : (after acts).cells[i]? with
  | none =>
      rw [(cells_after acts i).2 (List.getElem?_eq_none_iff.mp hc)]
      rfl
  | some c => exact isSettled_after hc

end Board

namespace Latch

/-- The act that a step does to the board. -/
def Step.act? (s : State D) : Step D → Option (Board.Act Unit D)
  | .new => some .make
  | .clone handle => (s.board.cell? handle).map fun p => .clone p.1
  | .openLatch handle => (s.board.cell? handle).map fun p => .call p.1 (.settle ())
  | .race handle calls =>
    if calls = 0 then none else (s.board.cell? handle).map fun p => .call p.1 (.settle ())
  | .onOpen handle tag actions =>
    (s.board.cell? handle).map fun p => .call p.1 (.register { tag, actions })
  | .poll future waker => s.futures[future]?.map fun i => .call i (.poll waker)
  | _ => none

/-- The acts that a step is: what it does to the board, and the work that this sets off. -/
def Step.echo (s : State D) (st : Step D) : List (Board.Act Unit D) :=
  match st.act? s with
  | none => []
  | some a => a :: List.replicate (a.apply s.board).rounds .item

/-- The acts that the steps of a script are. -/
def echoes : State D → List (Step D) → List (Board.Act Unit D)
  | _, [] => []
  | s, st :: script => st.echo s ++ echoes (s.perform st).2 script

namespace State

variable {s : State D}

/-- A step does one act, with all that it sets off. -/
theorem perform_board (h : s.board.work = []) (st : Step D) : (s.perform st).2.board =
    ((st.act? s).map fun a => (a.apply s.board).drain).getD s.board := by
  cases st with
  | new =>
      have hmake : s.board.make.drain = s.board.make := Board.drain_of_atRest h
      simp [perform, Step.act?, Board.Act.apply, hmake]
  | clone handle =>
      have hclone (i : Nat) : (s.board.clone i).drain = s.board.clone i := Board.drain_of_atRest h
      cases hc : s.board.cell? handle with
      | none => simp [perform, Step.act?, hc]
      | some p => simp [perform, Step.act?, hc, Board.Act.apply, hclone]
  | openLatch handle =>
      cases hc : s.board.cell? handle with
      | none => simp [perform, Step.act?, hc]
      | some p => simp [perform, Step.act?, hc, Board.Act.apply, Board.call, openAt]
  | race handle calls =>
      cases hc : s.board.cell? handle with
      | none => simp [perform, Step.act?, hc]
      | some p =>
          by_cases hn : calls = 0
          · simp [perform, Step.act?, hc, hn]
          · simp [perform, Step.act?, hc, hn, Board.Act.apply, Board.call, openAt]
  | onOpen handle tag actions =>
      cases hc : s.board.cell? handle with
      | none => simp [perform, Step.act?, hc]
      | some p => simp [perform, Step.act?, hc, Board.Act.apply, Board.call]
  | poll future waker =>
      cases hf : s.futures[future]? with
      | none => simp [perform, Step.act?, hf]
      | some i =>
          have hdrain : (s.board.await i waker).drain = s.board.await i waker :=
            Board.drain_of_atRest ((Board.work_await i waker s.board).trans h)
          simp only [perform, Step.act?, hf]
          split
          · rename_i hset
            simp [Board.Act.apply, Board.call, Board.await_of_isSettled hset,
              Board.drain_of_atRest h]
          · simp [Board.Act.apply, Board.call, hdrain]
  | collect handle =>
      cases hc : s.board.cell? handle with
      | none => simp [perform, Step.act?, hc]
      | some p =>
        simp only [perform, Step.act?, hc]
        split <;> rfl
  | isOpen handle | waitUntil handle | wait handle | debug handle | park handle | opened handle =>
      cases hc : s.board.cell? handle with
      | none => simp [perform, Step.act?, hc]
      | some p => simp [perform, Step.act?, hc]
  | unknown => rfl

theorem board_perform (h : s.board.work = []) (st : Step D) :
    (s.perform st).2.board = Board.play (st.echo s) s.board := by
  rw [perform_board h, Step.echo]
  cases st.act? s with
  | none => rfl
  | some a => exact (Board.play_rounds _).symm

theorem work_perform (h : s.board.work = []) (st : Step D) : (s.perform st).2.board.work = [] := by
  rw [perform_board h]
  cases st.act? s with
  | none => exact h
  | some a => exact Board.work_drain _

/-- A script does to the board the acts that its steps are. -/
theorem board_run (script : List (Step D)) (h : s.board.work = []) :
    (s.run script).2.board = Board.play (echoes s script) s.board ∧
      (s.run script).2.board.work = [] := by
  induction script generalizing s with
  | nil => exact ⟨rfl, h⟩
  | cons st script ih =>
      obtain ⟨hboard, hrest⟩ := ih (work_perform h st)
      rw [echoes, Board.play_append, ← board_perform h]
      exact ⟨hboard, hrest⟩

theorem named_perform (h : s.board.work = []) (hn : s.board.Named) (st : Step D) :
    (s.perform st).2.board.Named := by
  rw [board_perform h, Step.echo]
  cases ha : st.act? s with
  | none => exact hn
  | some a =>
      refine Board.Named.items (hn.apply fun i hi => ?_) _
      subst hi
      cases st with
      | clone handle =>
          obtain ⟨⟨j, c⟩, hcell, hj⟩ := Option.map_eq_some_iff.mp ha
          obtain rfl := Board.Act.clone.inj hj
          exact (List.getElem?_eq_some_iff.mp (Board.getElem?_of_cell? hcell)).1
      | openLatch | onOpen | poll =>
          obtain ⟨p, _, hp⟩ := Option.map_eq_some_iff.mp ha
          cases hp
      | race handle calls =>
          rw [Step.act?] at ha
          split at ha
          · cases ha
          · obtain ⟨p, _, hp⟩ := Option.map_eq_some_iff.mp ha
            cases hp
      | _ => cases ha

theorem named_run (script : List (Step D)) (h : s.board.work = []) (hn : s.board.Named) :
    (s.run script).2.board.Named := by
  induction script generalizing s with
  | nil => exact hn
  | cons st script ih => exact ih (work_perform h st) (named_perform h hn st)

theorem events_perform (h : s.board.work = []) (st : Step D) :
    s.board.events <:+ (s.perform st).2.board.events := by
  rw [board_perform h]
  exact Board.events_play _ _

/-- The reports of a script are all that happens, in its order. -/
theorem events_run (script : List (Step D)) (h : s.board.work = []) :
    s.board.events.reverse ++ (s.run script).1.flatMap (·.events) =
      (s.run script).2.board.events.reverse := by
  induction script generalizing s with
  | nil => exact List.append_nil _
  | cons st script ih =>
      have hstep : s.board.events.reverse ++ (s.step st).1.events =
          (s.perform st).2.board.events.reverse :=
        reverse_append_reverse_take (events_perform h st)
      rw [run, List.flatMap_cons, ← List.append_assoc, hstep]
      exact ih (work_perform h st)

end State

/-- What a script is told of a latch, by whether it is open. -/
structure Told (s : State D) (handle : Nat) (b : Bool) : Prop where
  /-- An attempt to open the latch says whether that opened it. -/
  openLatch : (s.perform (.openLatch handle)).1 = .flag !b
  /-- Of several attempts at once, one opens the latch unless it is open. -/
  race : ∀ calls, (s.perform (.race handle calls)).1 =
    .number (if calls = 0 then 0 else (!b).toNat)
  isOpen : (s.perform (.isOpen handle)).1 = .flag b
  waitUntil : (s.perform (.waitUntil handle)).1 = .flag b
  wait : (s.perform (.wait handle)).1 = if b then .flag true else .refusal .wouldBlock

/-- What a script has made of its latches by steps that are these acts. -/
structure Settling (s : State D) (acts : List (Board.Act Unit D)) : Prop where
  board : s.board = Board.after acts
  law : Board.Settling acts
  /-- All that the steps set off is done. -/
  rest : s.board.work = []
  /-- Every handle that was made names a latch. -/
  named : ∀ {handle : Nat}, handle < s.board.handles.length →
    ∃ i c, s.board.cell? handle = some (i, c)
  /-- A latch is open once somebody has attempted to open it. -/
  told : ∀ {handle i : Nat} {c : Cell Unit Nat (Reaction Unit D)},
    s.board.cell? handle = some (i, c) → Told s handle (Cell.attempted (Board.calls acts i))
  /-- A new future waits for the latch that the handle names. -/
  opened : ∀ {handle i : Nat} {c : Cell Unit Nat (Reaction Unit D)},
    s.board.cell? handle = some (i, c) → s.perform (.opened handle) =
      (.number s.futures.length, { s with futures := s.futures ++ [i] })
  polled : ∀ {future i : Nat}, s.futures[future]? = some i →
    ∀ waker, (s.perform (.poll future waker)).1 =
      if Cell.attempted (Board.calls acts i) then .ready else .pending

theorem told_of_cell? {s : State D} {handle i : Nat} {c : Cell Unit Nat (Reaction Unit D)}
    (hc : s.board.cell? handle = some (i, c)) : Told s handle c.isSettled where
  openLatch := by simp only [State.perform, hc]
  race calls := by
    simp only [State.perform, hc]
    split <;> rfl
  isOpen := by simp only [State.perform, hc]
  waitUntil := by simp only [State.perform, hc]
  wait := by simp only [State.perform, hc]

/-- Whatever a script does with latches. -/
theorem settling (script : List (Step D)) :
    Settling (State.run script {}).2 (.make :: echoes {} script) := by
  obtain ⟨hplay, hrest⟩ := State.board_run script (s := {}) rfl
  have hboard : (State.run script {}).2.board = Board.after (.make :: echoes {} script) := hplay
  have hnamed : (State.run script {}).2.board.Named := by
    refine State.named_run script rfl fun i hi => ?_
    obtain rfl := List.mem_singleton.mp hi
    exact Nat.one_pos
  constructor
  · exact hboard
  · exact Board.settling _
  · exact hrest
  · intro handle hlt
    have hi := List.getElem?_eq_getElem hlt
    have hc := List.getElem?_eq_getElem (hnamed _ (List.getElem_mem hlt))
    exact ⟨_, _, Board.cell?_eq_some_iff.mpr ⟨hi, hc⟩⟩
  · intro handle i c hc
    have hset := Board.isSettled_after (hboard ▸ Board.getElem?_of_cell? hc)
    exact hset ▸ told_of_cell? hc
  · intro handle i c hc
    simp only [State.perform, hc]
  · intro future i hf waker
    rw [← Board.isSettled_getD, ← hboard]
    simp only [State.perform, hf]
    split <;> rfl

end Latch

end RequestScheduler
