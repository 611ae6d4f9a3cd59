import RequestScheduler.Cell.Board
import RequestScheduler.Refusal

/-!
# Scripts for latches

A latch is a cell without a value: settling it opens it. A script makes handles of latches, futures
that are ready once a latch is open, and threads that wait for one. Handles and futures are numbered
in the order in which they are made; the handle zero is there from the start.
-/

namespace RequestScheduler.Latch

variable {D : Type}

/-- A step of a script. -/
inductive Step (D : Type) where
  | new
  | clone (handle : Nat)
  | openLatch (handle : Nat)
  /-- Opens as often as `calls` says, from as many threads. -/
  | race (handle calls : Nat)
  | isOpen (handle : Nat)
  | onOpen (handle : Nat) (tag : D) (actions : List (Action Unit D))
  /-- Waits for some time. -/
  | waitUntil (handle : Nat)
  | wait (handle : Nat)
  | debug (handle : Nat)
  /-- Has a thread wait. -/
  | park (handle : Nat)
  /-- Joins the threads that wait by this handle. -/
  | collect (handle : Nat)
  /-- Makes a future. -/
  | opened (handle : Nat)
  | poll (future waker : Nat)
  | unknown
  deriving Repr

/-- The answer to a step. -/
inductive Answer where
  | nothing
  | number (n : Nat)
  | flag (b : Bool)
  | flags (l : List Bool)
  | text (s : String)
  | ready
  | pending
  | refusal (r : Refusal)
  deriving DecidableEq, Repr

/-- Latches with the futures and the threads that wait for them. -/
structure State (D : Type) where
  board : Board Unit D := Board.make {}
  /-- The latch of each future. -/
  futures : List Nat := []
  /-- The handle by which each thread waits. -/
  parked : List Nat := []

/-- What a step reports: its answer, its events, and which handles name open latches. -/
structure Report (D : Type) where
  answer : Answer
  events : List (Board.Event D)
  flags : List Bool

/-- The structural text of a latch. -/
def text (isOpen : Bool) : String := "Latch \x7b open: " ++ toString isOpen ++ " \x7d"

namespace State

/-- Opens a latch and runs what waits for it. -/
def openAt (i : Nat) (s : State D) : State D := { s with board := (s.board.settle i () []).drain }

/-- Carries out a step. -/
def perform (step : Step D) (s : State D) : Answer × State D :=
  let onHandle (handle : Nat) (f : Nat → Bool → Answer × State D) : Answer × State D :=
    match s.board.cell? handle with
    | none => (.refusal .badStep, s)
    | some (i, c) => f i c.isSettled
  let made : Answer := .number s.board.handles.length
  match step with
  | .new => (made, { s with board := s.board.make })
  | .clone handle => onHandle handle fun i _ => (made, { s with board := s.board.clone i })
  | .openLatch handle => onHandle handle fun i isOpen => (.flag !isOpen, s.openAt i)
  | .race handle calls => onHandle handle fun i isOpen =>
    if calls = 0 then (.number 0, s) else (.number (!isOpen).toNat, s.openAt i)
  | .isOpen handle => onHandle handle fun _ isOpen => (.flag isOpen, s)
  | .onOpen handle tag actions => onHandle handle fun i _ =>
    (.nothing, { s with board := (s.board.register i { tag, actions }).drain })
  | .waitUntil handle => onHandle handle fun _ isOpen => (.flag isOpen, s)
  | .wait handle => onHandle handle fun _ isOpen =>
    (if isOpen then .flag true else .refusal .wouldBlock, s)
  | .debug handle => onHandle handle fun _ isOpen => (.text (text isOpen), s)
  | .park handle => onHandle handle fun _ _ =>
    (.number s.parked.length, { s with parked := s.parked ++ [handle] })
  | .collect handle => onHandle handle fun _ isOpen =>
    if isOpen then
      (.flags ((s.parked.filter (· == handle)).map fun _ => true),
        { s with parked := s.parked.filter (· != handle) })
    else (.refusal .wouldBlock, s)
  | .opened handle => onHandle handle fun i _ =>
    (.number s.futures.length, { s with futures := s.futures ++ [i] })
  | .poll future waker =>
    match s.futures[future]? with
    | none => (.refusal .badStep, s)
    | some i =>
      if ((s.board.cells[i]?).map Cell.isSettled).getD false then (.ready, s)
      else (.pending, { s with board := s.board.await i waker })
  | .unknown => (.refusal .badStep, s)

/-- Carries out a step and reports what it brought about. -/
def step (st : Step D) (s : State D) : Report D × State D :=
  let (answer, t) := s.perform st
  ({ answer
     events := Board.newEvents s.board t.board
     flags := (List.range t.board.handles.length).map t.board.isSettled }, t)

/-- Carries out a script. -/
def run : List (Step D) → State D → List (Report D) × State D
  | [], s => ([], s)
  | st :: rest, s =>
    let (report, s) := s.step st
    let (reports, s) := s.run rest
    (report :: reports, s)

end State

end RequestScheduler.Latch
