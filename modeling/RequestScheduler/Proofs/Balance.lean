import Mathlib.Data.List.Perm.Basic
import RequestScheduler.Cell.Board
import RequestScheduler.Places
import RequestScheduler.Proofs.Calls

/-!
# Nothing registered is lost, repeated or early

The cells of a board are called from outside and by the continuations that run, in any order and to
any depth; a call from outside may come between any two work items, as when a waker makes calls of
its own. An attempt to settle a cell succeeds if it is the first. It stores the value, and puts the
wakers and the continuations of the cell in front of the work; a later attempt puts nothing there.
A continuation that runs puts its actions in front of the work. The work is carried out from the
front, each item with all that it sets off before the next (`drain_behind`), so that a continuation
which is registered on a settled cell runs before whoever registered it goes on. What was woken and
run, with what is due, is what the settled cells owe (`balance_after`): once for each registration,
and nothing for a cell that is pending.
-/

namespace RequestScheduler

variable {V D : Type}

/-- The handle of the cell that an action is about. -/
def Action.handle : Action V D → Nat
  | .settle handle _ _ | .query handle _ | .register handle _ _ => handle

namespace Board

open Cell (Call Signal)

/-- What can be seen of a signal. -/
def Event.ofSignal : Signal Nat (Reaction V D) → Event D
  | .wake w => .wake w
  | .run r => .run r.tag

/-- Whether an event is a wake or the run of a continuation. -/
def Event.isSignal : Event D → Bool
  | .wake _ | .run _ => true
  | _ => false

def Work.ofSignal : Signal Nat (Reaction V D) → Work V D
  | .wake w => .emit (.wake w)
  | .run r => .run r

/-- The wake or the run that a work item is. -/
def Work.signal? : Work V D → Option (Event D)
  | .run r => some (.run r.tag)
  | .emit e => if e.isSignal then some e else none
  | .perform _ => none

/-- The wakes and runs that are due. -/
def due (items : List (Work V D)) : List (Event D) := items.filterMap Work.signal?

/-- The wakes and runs that were carried out, and those that are due. -/
def balance (b : Board V D) : List (Event D) := b.events.filter Event.isSignal ++ due b.work

/-- What is done to a board in one go. -/
inductive Act (V D : Type) where
  /-- Carries out the first work item. -/
  | item
  | make
  | clone (i : Nat)
  /-- Calls a cell from outside. -/
  | call (i : Nat) (x : Call V Nat (Reaction V D))

/-- Makes a call on a cell. -/
def call (i : Nat) (x : Call V Nat (Reaction V D)) (b : Board V D) : Board V D :=
  match x with
  | .poll w => b.await i w
  | .take => { b with cells := b.cells.modify i (·.take.2) }
  | .register r => b.register i r
  | .settle v => b.settle i v []

/-- The call that a work item makes, with the cell that it is made on. -/
def callOf (b : Board V D) : Work V D → Option (Nat × Call V Nat (Reaction V D))
  | .perform (.settle handle _ v) => (b.cell? handle).map fun p => (p.1, .settle v)
  | .perform (.register handle tag actions) =>
    (b.cell? handle).map fun p => (p.1, .register { tag, actions })
  | _ => none

/-- The report that a continuation makes of its attempt to settle a cell. -/
def Work.report (won : Bool) : Work V D → List (Work V D)
  | .perform (.settle _ label _) => [.emit (.settle label won)]
  | _ => []

namespace Act

def apply (a : Act V D) (b : Board V D) : Board V D :=
  match a with
  | .item => b.step?.getD b
  | .make => b.make
  | .clone i => b.clone i
  | .call i x => b.call i x

/-- The call that an act makes, with the cell that it is made on. -/
def call? (a : Act V D) (b : Board V D) : Option (Nat × Call V Nat (Reaction V D)) :=
  match a with
  | .item => b.work.head?.bind b.callOf
  | .call i x => if i < b.cells.length then some (i, x) else none
  | .make | .clone _ => none

/-- What an act leaves of the work. -/
def rest (a : Act V D) (b : Board V D) : List (Work V D) :=
  match a with
  | .item => b.work.tail
  | _ => b.work

/-- The report of an attempt to settle a cell, if a continuation makes it. -/
def report (a : Act V D) (b : Board V D) (won : Bool) : List (Work V D) :=
  match a with
  | .item => b.work.head?.toList.flatMap (Work.report won)
  | _ => []

end Act

/-- What an attempt to settle a cell returns. -/
def wins (i : Nat) (b : Board V D) : Bool := b.cells[i]?.any (!·.isSettled)

/-- Does one act after the other. -/
def play (acts : List (Act V D)) (b : Board V D) : Board V D := acts.foldl (fun b a => a.apply b) b

/-- How many work items are carried out until nothing is left to be done. -/
def rounds (b : Board V D) : Nat :=
  match h : b.step? with
  | none => 0
  | some t =>
    have := step?_lt h
    t.rounds + 1
termination_by b.size

/-- The board that acts lead to, from one without cells. -/
def after (acts : List (Act V D)) : Board V D := play acts {}

/-- The calls that acts make, from a board on. -/
def journalFrom : Board V D → List (Act V D) → List (Nat × Call V Nat (Reaction V D))
  | _, [] => []
  | b, a :: acts => (a.call? b).toList ++ journalFrom (a.apply b) acts

/-- The calls that acts make on cell `i`. -/
def calls (acts : List (Act V D)) (i : Nat) : List (Call V Nat (Reaction V D)) :=
  ((journalFrom {} acts).filter (·.1 == i)).map (·.2)

section

variable {b : Board V D} {a : Act V D} {acts : List (Act V D)} {i : Nat}
  {x : Call V Nat (Reaction V D)} {c : Cell V Nat (Reaction V D)}

@[simp] theorem play_nil (b : Board V D) : play [] b = b := rfl

@[simp] theorem play_cons (a : Act V D) (acts : List (Act V D)) (b : Board V D) :
    play (a :: acts) b = play acts (a.apply b) := rfl

@[simp] theorem play_append (acts more : List (Act V D)) (b : Board V D) :
    play (acts ++ more) b = play more (play acts b) :=
  List.foldl_append

theorem after_append (acts : List (Act V D)) (a : Act V D) :
    after (acts ++ [a]) = a.apply (after acts) :=
  play_append acts [a] {}

theorem journalFrom_append (b : Board V D) (acts : List (Act V D)) (a : Act V D) :
    journalFrom b (acts ++ [a]) = journalFrom b acts ++ (a.call? (play acts b)).toList := by
  induction acts generalizing b with
  | nil => simp [journalFrom]
  | cons a' acts ih =>
      rw [List.cons_append, journalFrom, journalFrom, ih, List.append_assoc]
      rfl

theorem calls_append_of_call (h : a.call? (after acts) = some (i, x)) (j : Nat) :
    calls (acts ++ [a]) j = if i = j then calls acts j ++ [x] else calls acts j := by
  rw [after] at h
  rw [calls, calls, journalFrom_append, h]
  by_cases hij : i = j <;> simp [hij]

theorem calls_append_of_none (h : a.call? (after acts) = none) (j : Nat) :
    calls (acts ++ [a]) j = calls acts j := by
  rw [after] at h
  rw [calls, calls, journalFrom_append, h]
  simp

@[simp] theorem due_append (l₁ l₂ : List (Work V D)) : due (l₁ ++ l₂) = due l₁ ++ due l₂ :=
  List.filterMap_append

@[simp] theorem due_ofSignal (l : List (Signal Nat (Reaction V D))) :
    due (l.map Work.ofSignal) = l.map Event.ofSignal := by
  induction l with
  | nil => rfl
  | cons s l ih => cases s <;> simpa [due, Work.ofSignal, Work.signal?, Event.ofSignal,
      Event.isSignal] using ih

@[simp] theorem due_perform (actions : List (Action V D)) : due (actions.map .perform) = [] := by
  simp [due, Work.signal?]

theorem due_report (w : Work V D) (won : Bool) : due (w.report won) = [] := by
  cases w with
  | perform action => cases action <;> rfl
  | _ => rfl

theorem report_item {w : Work V D} {rest : List (Work V D)} (h : b.work = w :: rest) (won : Bool) :
    Act.item.report b won = w.report won := by
  simp [Act.report, h]

/-- What comes to the front of the work is due. -/
theorem balance_push (items : List (Work V D)) (b : Board V D) :
    (balance (b.push items)).Perm (due items ++ balance b) := by
  rw [balance, push, due_append]
  exact List.perm_append_comm_assoc _ _ _

/-- What is due from the first work item, and from the others. -/
theorem balance_of_cons {w : Work V D} {rest : List (Work V D)} (h : b.work = w :: rest) :
    (balance b).Perm (w.signal?.toList ++ balance { b with work := rest }) := by
  have hdue : due (w :: rest) = w.signal?.toList ++ due rest := by
    rw [due, List.filterMap_cons]
    cases w.signal? <;> rfl
  rw [balance, h, hdue]
  exact List.perm_append_comm_assoc _ _ _

theorem balance_emit (e : Event D) (b : Board V D) :
    balance (b.emit e) = (Work.signal? (.emit e : Work V D)).toList ++ balance b := by
  rw [balance, emit, Work.signal?]
  cases he : e.isSignal with
  | true => rw [List.filter_cons_of_pos he]; rfl
  | false => rw [List.filter_cons_of_neg (by simp [he])]; rfl

theorem waiting_eq (c : Cell V Nat (Reaction V D)) : waiting c = c.signals.map .ofSignal := by
  rw [waiting, Cell.signals, List.map_append, List.map_map, List.map_map]
  rfl

theorem cell?_eq_some_iff {handle : Nat} :
    b.cell? handle = some (i, c) ↔ b.handles[handle]? = some i ∧ b.cells[i]? = some c := by
  simp only [cell?, Option.bind_eq_bind, Option.bind_eq_some_iff, Option.pure_def,
    Option.some.injEq, Prod.mk.injEq]
  constructor
  · rintro ⟨j, hj, d, hd, rfl, rfl⟩
    exact ⟨hj, hd⟩
  · rintro ⟨hi, hc⟩
    exact ⟨i, hi, c, hc, rfl, rfl⟩

theorem getElem?_of_cell? {handle : Nat} (h : b.cell? handle = some (i, c)) :
    b.cells[i]? = some c :=
  (cell?_eq_some_iff.mp h).2

theorem perform_query {handle : Nat} (h : b.cell? handle = some (i, c)) (label : D) :
    b.perform (.query handle label) = b.emit (.query label c.isSettled) := by
  rw [perform, h]

/-- An action that is about no cell does nothing. -/
theorem perform_of_none {action : Action V D} (h : b.cell? action.handle = none) :
    b.perform action = b := by
  cases action with
  | settle handle label v | query handle label | register handle tag actions =>
      rw [Action.handle] at h
      rw [perform, h]

theorem wins_eq (hc : b.cells[i]? = some c) : b.wins i = !c.isSettled := by
  rw [wins, hc]
  rfl

theorem settle_eq (hc : b.cells[i]? = some c) (v : V) (behind : List (Work V D)) :
    b.settle i v behind = { b with
      cells := b.cells.set i ((Call.settle v).apply c)
      work := ((Call.settle v).sets c).map .ofSignal ++ behind ++ b.work } := by
  rw [settle, hc]
  simp only [waiting_eq]
  rfl

theorem settle_of_isSettled (hc : b.cells[i]? = some c) (h : c.isSettled = true) (v : V)
    (behind : List (Work V D)) : b.settle i v behind = b.push behind := by
  rw [settle_eq hc, Cell.apply_of_isSettled h (by simp), set_of_getElem? hc, Call.sets,
    Cell.signals_of_isSettled h]
  rfl

theorem register_eq (hc : b.cells[i]? = some c) (r : Reaction V D) :
    b.register i r = { b with
      cells := b.cells.set i ((Call.register r).apply c)
      work := ((Call.register r).sets c).map .ofSignal ++ b.work } := by
  rw [register, hc]
  cases hs : c.isSettled with
  | false =>
      simp only [Call.sets, hs]
      rfl
  | true =>
      rw [Cell.apply_of_isSettled hs (by simp), set_of_getElem? hc]
      simp only [Call.sets, hs]
      rfl

/-- A call from outside changes the cell that it is made on, and puts what it sets off in front of
the work. -/
theorem call_eq (hc : b.cells[i]? = some c) (x : Call V Nat (Reaction V D)) :
    b.call i x = { b with
      cells := b.cells.set i (x.apply c)
      work := (x.sets c).map .ofSignal ++ b.work } := by
  cases x with
  | poll w =>
      rw [call, await, hc]
      rfl
  | take =>
      rw [call, List.modify_eq_set_getElem?, hc]
      rfl
  | register r => exact register_eq hc r
  | settle v => rw [call, settle_eq hc, List.append_nil]

/-- A call on a cell that is not there does nothing. -/
theorem call_of_none (hc : b.cells[i]? = none) (x : Call V Nat (Reaction V D)) :
    b.call i x = b := by
  cases x with
  | poll w => rw [call, await, hc]
  | take =>
      rw [call, List.modify_eq_set_getElem?, hc]
      rfl
  | register r => rw [call, register, hc]
  | settle v =>
      rw [call, settle, hc]
      rfl

/-- A poll and a taking of the value change nothing but the cell. -/
theorem exists_of_ask (hx : x.isSettle = false) (hk : x.continuation? = none) :
    ∃ c, b.call i x = { b with cells := b.cells.set i c } := by
  cases hc : b.cells[i]? with
  | none =>
      refine ⟨.empty, ?_⟩
      rw [call_of_none hc, List.set_eq_of_length_le (List.getElem?_eq_none_iff.mp hc)]
  | some c =>
      refine ⟨x.apply c, ?_⟩
      rw [call_eq hc]
      cases x with
      | poll w => rfl
      | take => rfl
      | register r => cases hk
      | settle v => cases hx

/-- A work item that calls a cell changes that cell, and puts what the call sets off in front of the
work, and its own report after that. -/
theorem exec_of_call {w : Work V D} (h : b.callOf w = some (i, x)) :
    ∃ c, b.cells[i]? = some c ∧ exec w b = { b with
      cells := b.cells.set i (x.apply c)
      work := (x.sets c).map .ofSignal ++ w.report (b.wins i) ++ b.work } := by
  unfold callOf at h
  split at h
  · rename_i handle label v
    obtain ⟨⟨j, c⟩, hcell, hp⟩ := Option.map_eq_some_iff.mp h
    obtain ⟨rfl, rfl⟩ := Prod.mk.inj hp
    have hc := getElem?_of_cell? hcell
    refine ⟨c, hc, ?_⟩
    rw [exec, perform, hcell, wins_eq hc]
    exact settle_eq hc v _
  · rename_i handle tag actions
    obtain ⟨⟨j, c⟩, hcell, hp⟩ := Option.map_eq_some_iff.mp h
    obtain ⟨rfl, rfl⟩ := Prod.mk.inj hp
    have hc := getElem?_of_cell? hcell
    refine ⟨c, hc, ?_⟩
    have hreport (won : Bool) :
        (Work.perform (.register handle tag actions) : Work V D).report won = [] := rfl
    rw [exec, perform, hcell, hreport, List.append_nil]
    exact register_eq hc _
  · cases h

/-- A work item that calls no cell leaves the cells as they are. Its wake or run is not due any
more, and what it puts in front of the work is neither. -/
theorem exec_of_none {w : Work V D} (h : b.callOf w = none) :
    (exec w b).cells = b.cells ∧ (balance (exec w b)).Perm (w.signal?.toList ++ balance b) := by
  cases w with
  | run r =>
      refine ⟨rfl, (balance_push _ _).trans ?_⟩
      rw [due_perform, balance_emit]
      rfl
  | emit e =>
      rw [exec, balance_emit]
      exact ⟨rfl, .rfl⟩
  | perform action =>
      cases action with
      | settle handle label v =>
          have hcell : b.cell? handle = none := Option.map_eq_none_iff.mp h
          rw [exec, perform, hcell]
          exact ⟨rfl, .rfl⟩
      | query handle label =>
          rw [exec, perform]
          cases b.cell? handle with
          | none => exact ⟨rfl, .rfl⟩
          | some p => exact ⟨rfl, .rfl⟩
      | register handle tag actions =>
          have hcell : b.cell? handle = none := Option.map_eq_none_iff.mp h
          rw [exec, perform, hcell]
          exact ⟨rfl, .rfl⟩

theorem apply_item_of_nil (h : b.work = []) : Act.item.apply b = b := by
  rw [Act.apply, step?, h]
  rfl

theorem apply_item {w : Work V D} {rest : List (Work V D)} (h : b.work = w :: rest) :
    Act.item.apply b = exec w { b with work := rest } := by
  rw [Act.apply, step?, h]
  rfl

/-- An item that makes a call stands first in the work. -/
theorem exists_of_call_item {p : Nat × Call V Nat (Reaction V D)} (h : Act.item.call? b = some p) :
    ∃ w rest, b.work = w :: rest ∧ b.callOf w = some p := by
  obtain ⟨w, hhead, hw⟩ := Option.bind_eq_some_iff.mp h
  obtain ⟨rest, hwork⟩ := List.head?_eq_some_iff.mp hhead
  exact ⟨w, rest, hwork, hw⟩

/-- An act that calls a cell changes that cell. What the call sets off comes before the report of
the continuation that made it, if one did, and that before the work that is left. -/
theorem Act.apply_of_call (h : a.call? b = some (i, x)) :
    ∃ c, b.cells[i]? = some c ∧ a.apply b = { b with
      cells := b.cells.set i (x.apply c)
      work := (x.sets c).map .ofSignal ++ a.report b (b.wins i) ++ a.rest b } := by
  cases a with
  | item =>
      obtain ⟨w, rest, hwork, hw⟩ := exists_of_call_item h
      rw [apply_item hwork, report_item hwork, Act.rest, hwork]
      exact exec_of_call (b := { b with work := rest }) hw
  | make | clone => cases h
  | call j y =>
      rw [call?] at h
      split at h
      · rename_i hj
        obtain ⟨rfl, rfl⟩ := Prod.mk.inj (Option.some.inj h)
        have hc := List.getElem?_eq_getElem hj
        refine ⟨_, hc, ?_⟩
        have hreport : (Act.call j y).report b (b.wins j) = [] := rfl
        rw [hreport, List.append_nil]
        exact call_eq hc y
      · cases h

/-- An act that calls no cell leaves the cells as they are, or adds one, and no wake or run comes in
or is lost. -/
theorem Act.apply_of_none (h : a.call? b = none) :
    ((a.apply b).cells = b.cells ∨ (a.apply b).cells = b.cells ++ [.empty]) ∧
      (balance (a.apply b)).Perm (balance b) := by
  cases a with
  | item =>
      cases hwork : b.work with
      | nil => rw [apply_item_of_nil hwork]; exact ⟨.inl rfl, .rfl⟩
      | cons w rest =>
          rw [call?, hwork] at h
          obtain ⟨hcells, hperm⟩ := exec_of_none (b := { b with work := rest }) h
          rw [apply_item hwork]
          exact ⟨.inl hcells, hperm.trans (balance_of_cons hwork).symm⟩
  | make => exact ⟨.inr rfl, .rfl⟩
  | clone j => exact ⟨.inl rfl, .rfl⟩
  | call j y =>
      have hj : b.cells[j]? = none := by
        rw [List.getElem?_eq_none_iff]
        simpa [call?] using h
      rw [Act.apply, call_of_none hj]
      exact ⟨.inl rfl, .rfl⟩

theorem report_of_register {r : Reaction V D} (h : a.call? b = some (i, .register r)) (won : Bool) :
    a.report b won = [] := by
  cases a with
  | item =>
      obtain ⟨w, rest, hwork, hw⟩ := exists_of_call_item h
      rw [report_item hwork]
      unfold callOf at hw
      split at hw
      · obtain ⟨p, _, hp⟩ := Option.map_eq_some_iff.mp hw
        cases hp
      · rfl
      · cases hw
  | _ => rfl

/-- A work item that calls a cell is neither a wake nor a run. -/
theorem signal?_of_call {w : Work V D} (h : b.callOf w = some (i, x)) : w.signal? = none := by
  cases w with
  | perform action => rfl
  | run r => cases h
  | emit e => cases h

theorem due_rest (h : a.call? b = some (i, x)) : due (a.rest b) = due b.work := by
  cases a with
  | item =>
      obtain ⟨w, rest, hwork, hw⟩ := exists_of_call_item h
      rw [Act.rest, hwork, List.tail_cons, due, due, List.filterMap_cons_none (signal?_of_call hw)]
  | _ => rfl

/-- What a call sets off is due. -/
theorem Act.balance_of_call (h : a.call? b = some (i, x)) (hc : b.cells[i]? = some c) :
    (balance (a.apply b)).Perm ((x.sets c).map .ofSignal ++ balance b) := by
  obtain ⟨c', hc', happly⟩ := Act.apply_of_call h
  obtain rfl : c' = c := Option.some.inj (hc'.symm.trans hc)
  have hreport : due (a.report b (b.wins i)) = [] := by
    cases a with
    | item =>
        obtain ⟨w, rest, hwork, hw⟩ := exists_of_call_item h
        rw [report_item hwork, due_report]
    | _ => rfl
  rw [happly, balance, due_append, due_append, due_ofSignal, hreport, due_rest h, List.append_nil]
  exact List.perm_append_comm_assoc _ _ _

theorem length_apply_of_call (h : a.call? b = some (i, x)) :
    (a.apply b).cells.length = b.cells.length := by
  obtain ⟨c, _, happly⟩ := Act.apply_of_call h
  rw [happly, List.length_set]

/-- Every cell is what the calls on it have made of it, and a cell that is not there had none. -/
theorem cells_after (acts : List (Act V D)) (j : Nat) :
    (∀ c, (after acts).cells[j]? = some c → c = Cell.after (calls acts j)) ∧
      ((after acts).cells.length ≤ j → calls acts j = []) := by
  induction acts using List.reverseRecOn with
  | nil =>
      refine ⟨fun c hc => ?_, fun _ => rfl⟩
      cases hc
  | append_singleton acts a ih =>
      obtain ⟨hcell, hnone⟩ := ih
      rw [after_append]
      cases ha : a.call? (after acts) with
      | some p =>
          obtain ⟨i, x⟩ := p
          obtain ⟨c, hc, happly⟩ := Act.apply_of_call ha
          rw [length_apply_of_call ha, calls_append_of_call ha, happly]
          by_cases hij : i = j
          · subst hij
            obtain ⟨hi, _⟩ := List.getElem?_eq_some_iff.mp hc
            rw [if_pos rfl, List.getElem?_set_self hi, Cell.after_append, ← hcell c hc]
            exact ⟨fun d hd => (Option.some.inj hd).symm, fun hle => absurd hi (Nat.not_lt.mpr hle)⟩
          · rw [if_neg hij, List.getElem?_set_ne hij]
            exact ⟨hcell, hnone⟩
      | none =>
          rw [calls_append_of_none ha]
          obtain ⟨hsame | hnew, _⟩ := Act.apply_of_none ha
          · rw [hsame]
            exact ⟨hcell, hnone⟩
          · rw [hnew, List.length_append]
            refine ⟨fun c hc => ?_, fun hle => hnone (by omega)⟩
            rw [List.getElem?_append] at hc
            split at hc
            · exact hcell c hc
            · rename_i hlen
              rw [hnone (Nat.le_of_not_lt hlen), List.mem_singleton.mp (List.mem_of_getElem? hc)]
              rfl

theorem flatMap_range_append {α : Type} {n : Nat} (hi : i < n) (f : Nat → List α) (l : List α) :
    ((List.range n).flatMap fun j => if i = j then f j ++ l else f j).Perm
      (l ++ (List.range n).flatMap f) := by
  induction n with
  | zero => cases hi
  | succ n ih =>
      rw [List.range_succ, List.flatMap_append, List.flatMap_append, List.flatMap_singleton,
        List.flatMap_singleton]
      by_cases hin : i = n
      · subst hin
        have hsame : ((List.range i).flatMap fun j => if i = j then f j ++ l else f j) =
            (List.range i).flatMap f :=
          List.flatMap_congr fun j hj => if_neg (Nat.ne_of_gt (List.mem_range.mp hj))
        rw [if_pos rfl, hsame, ← List.append_assoc]
        exact List.perm_append_comm
      · rw [if_neg hin, ← List.append_assoc]
        exact (ih (by omega)).append_right _

/-- What was woken and run, and what is due, is what the calls on each cell have set off. -/
theorem balance_after (acts : List (Act V D)) : (balance (after acts)).Perm
    ((List.range (after acts).cells.length).flatMap fun i =>
      (Cell.owed (calls acts i)).map Event.ofSignal) := by
  induction acts using List.reverseRecOn with
  | nil => exact .nil
  | append_singleton acts a ih =>
      rw [after_append]
      cases ha : a.call? (after acts) with
      | some p =>
          obtain ⟨i, x⟩ := p
          obtain ⟨c, hc, _⟩ := Act.apply_of_call ha
          obtain ⟨hi, _⟩ := List.getElem?_eq_some_iff.mp hc
          have howed : (fun j => (Cell.owed (calls (acts ++ [a]) j)).map Event.ofSignal) =
              fun j =>
                if i = j then
                  (Cell.owed (calls acts j)).map Event.ofSignal ++ (x.sets c).map Event.ofSignal
                else (Cell.owed (calls acts j)).map Event.ofSignal := by
            funext j
            rw [calls_append_of_call ha]
            by_cases hij : i = j
            · subst hij
              rw [if_pos rfl, if_pos rfl, Cell.owed_append, List.map_append,
                ← (cells_after acts i).1 c hc]
            · rw [if_neg hij, if_neg hij]
          rw [length_apply_of_call ha, howed]
          exact (Act.balance_of_call ha hc).trans
            ((ih.append_left _).trans (flatMap_range_append hi _ _).symm)
      | none =>
          obtain ⟨hsame | hnew, hperm⟩ := Act.apply_of_none ha
          · simp only [hsame, calls_append_of_none ha]
            exact hperm.trans ih
          · simp only [hnew, calls_append_of_none ha, List.length_append, List.length_singleton,
              List.range_succ, List.flatMap_append, List.flatMap_singleton]
            rw [(cells_after acts _).2 (Nat.le_refl _)]
            simpa [Cell.owed, Cell.attempted] using hperm.trans ih

/-- What stands behind in the work does not matter to an item. -/
theorem exec_behind (w : Work V D) (b : Board V D) (rest : List (Work V D)) :
    exec w { b with work := b.work ++ rest } =
      { exec w b with work := (exec w b).work ++ rest } := by
  cases w with
  | run r => simp [exec, push, emit]
  | emit e => rfl
  | perform action =>
      have hcell (handle : Nat) :
          ({ b with work := b.work ++ rest } : Board V D).cell? handle = b.cell? handle := rfl
      cases action with
      | query handle label =>
          rw [exec, exec, perform, perform, hcell]
          cases b.cell? handle <;> rfl
      | settle handle label v =>
          rw [exec, exec, perform, perform, hcell]
          cases hb : b.cell? handle with
          | none => rfl
          | some p =>
              have hc := getElem?_of_cell? hb
              simp only [settle_eq hc, settle_eq (b := { b with work := b.work ++ rest }) hc,
                List.append_assoc]
      | register handle tag actions =>
          rw [exec, exec, perform, perform, hcell]
          cases hb : b.cell? handle with
          | none => rfl
          | some p =>
              have hc := getElem?_of_cell? hb
              simp only [register_eq hc, register_eq (b := { b with work := b.work ++ rest }) hc,
                List.append_assoc]

/-- The work is carried out from the front: what the first items set off is done before the items
behind them. -/
theorem drain_behind (b : Board V D) (rest : List (Work V D)) :
    ({ b with work := b.work ++ rest } : Board V D).drain = (b.drain.push rest).drain := by
  cases hwork : b.work with
  | nil =>
      rw [drain_of_atRest hwork, push, hwork]
      simp
  | cons w items =>
      have hstep : b.step? = some (exec w { b with work := items }) := by rw [step?, hwork]
      have hlong : ({ b with work := b.work ++ rest } : Board V D).step? =
          some (exec w { b with work := items ++ rest }) := by rw [step?, hwork]; rfl
      have := step?_lt hstep
      rw [← hwork, drain_of_step? hlong, drain_of_step? hstep,
        exec_behind w { b with work := items } rest]
      exact drain_behind _ rest
termination_by b.size

/-- The work comes to an end. -/
theorem play_rounds (b : Board V D) : play (List.replicate b.rounds .item) b = b.drain := by
  rw [rounds]
  split
  · rename_i hstep
    have hwork : b.work = [] := by
      cases hwork : b.work with
      | nil => rfl
      | cons w rest => simp [step?, hwork] at hstep
    exact (drain_of_atRest hwork).symm
  · rename_i t hstep
    have := step?_lt hstep
    have happly : Act.item.apply b = t := by rw [Act.apply, hstep, Option.getD_some]
    rw [List.replicate_succ, play_cons, happly, play_rounds t, drain_of_step? hstep]
termination_by b.size

end

/-- What acts have made of a board. -/
structure Settling (acts : List (Act V D)) : Prop where
  /-- Until somebody attempts to settle it, a cell has each distinct waker that it was polled with,
  and each continuation that was registered on it, in the order of their registration. -/
  pending : ∀ {i : Nat}, i < (after acts).cells.length → Cell.attempted (calls acts i) = false →
    (after acts).cells[i]? =
      some (.pending (Cell.polled (calls acts i)) (Cell.registered (calls acts i)))
  /-- The first attempt settles a cell for ever. -/
  settled : ∀ {i : Nat} {v : V} {before rest : List (Call V Nat (Reaction V D))},
    calls acts i = before ++ .settle v :: rest → Cell.attempted before = false →
    ∃ taken, (after acts).cells[i]? = some (.settled v taken)
  /-- What was woken and run, and what is due, is what the cells owe: a settled one a wake for every
  waker that it had and a run for every continuation that was ever registered on it, and a pending
  one nothing. -/
  once : (balance (after acts)).Perm ((List.range (after acts).cells.length).flatMap fun i =>
    (Cell.owed (calls acts i)).map Event.ofSignal)
  /-- The first attempt to settle a cell returns true. It stores the value; then the wakers are to
  be woken, and then the continuations to be run. -/
  won : ∀ {a : Act V D} {i : Nat} {v : V}, a.call? (after acts) = some (i, .settle v) →
    Cell.attempted (calls acts i) = false → (after acts).wins i = true ∧
      a.apply (after acts) = { after acts with
        cells := (after acts).cells.set i (.settled v false)
        work := (Cell.polled (calls acts i)).map (fun w => .emit (.wake w)) ++
          (Cell.registered (calls acts i)).map .run ++ a.report (after acts) true ++
          a.rest (after acts) }
  /-- Every other attempt returns false and does nothing. -/
  lost : ∀ {a : Act V D} {i : Nat} {v : V}, a.call? (after acts) = some (i, .settle v) →
    Cell.attempted (calls acts i) = true → (after acts).wins i = false ∧
      a.apply (after acts) = { after acts with
        work := a.report (after acts) false ++ a.rest (after acts) }
  /-- A continuation that is registered on a pending cell does not run now. -/
  kept : ∀ {a : Act V D} {i : Nat} {r : Reaction V D},
    a.call? (after acts) = some (i, .register r) → Cell.attempted (calls acts i) = false →
    a.apply (after acts) = { after acts with
      cells := (after acts).cells.set i
        (.pending (Cell.polled (calls acts i)) (Cell.registered (calls acts i) ++ [r]))
      work := a.rest (after acts) }
  /-- A continuation that is registered on a settled cell runs next. -/
  inline : ∀ {a : Act V D} {i : Nat} {r : Reaction V D},
    a.call? (after acts) = some (i, .register r) → Cell.attempted (calls acts i) = true →
    a.apply (after acts) = { after acts with work := .run r :: a.rest (after acts) }
  /-- A poll and a taking of the value change nothing but the cell. -/
  asked : ∀ {i : Nat} {x : Call V Nat (Reaction V D)}, x.isSettle = false →
    x.continuation? = none → ∃ c,
    (Act.call i x).apply (after acts) = { after acts with cells := (after acts).cells.set i c }
  /-- A call on a cell that is not there does nothing. -/
  absent : ∀ {i : Nat}, (after acts).cells.length ≤ i →
    ∀ x, (Act.call i x).apply (after acts) = after acts
  /-- A new cell is pending, with a handle of its own. -/
  made : Act.make.apply (after acts) = { after acts with
    cells := (after acts).cells ++ [.pending [] []]
    handles := (after acts).handles ++ [(after acts).cells.length] }
  /-- A cell may get further handles. -/
  cloned : ∀ i, (Act.clone i).apply (after acts) =
    { after acts with handles := (after acts).handles ++ [i] }
  /-- An action is about the cell that its handle was made for. -/
  named : ∀ {handle i : Nat} {c : Cell V Nat (Reaction V D)},
    (after acts).cell? handle = some (i, c) ↔
      (after acts).handles[handle]? = some i ∧ (after acts).cells[i]? = some c
  /-- A continuation that runs is seen to run, and what it does comes next. -/
  runs : ∀ {r : Reaction V D} {rest : List (Work V D)}, (after acts).work = .run r :: rest →
    Act.item.apply (after acts) = { after acts with
      work := r.actions.map .perform ++ rest
      events := .run r.tag :: (after acts).events }
  /-- A wake, and the report of an attempt to settle a cell, is seen when its turn comes. -/
  seen : ∀ {e : Event D} {rest : List (Work V D)}, (after acts).work = .emit e :: rest →
    Act.item.apply (after acts) =
      { after acts with work := rest, events := e :: (after acts).events }
  /-- Whoever asks whether a cell is settled is told whether somebody has attempted to. -/
  queried : ∀ {handle i : Nat} {label : D} {c : Cell V Nat (Reaction V D)}
    {rest : List (Work V D)}, (after acts).work = .perform (.query handle label) :: rest →
    (after acts).cell? handle = some (i, c) →
    Act.item.apply (after acts) = { after acts with
      work := rest
      events := .query label (Cell.attempted (calls acts i)) :: (after acts).events }
  /-- An action that is about no cell does nothing. -/
  stray : ∀ {action : Action V D} {rest : List (Work V D)},
    (after acts).work = .perform action :: rest → (after acts).cell? action.handle = none →
    Act.item.apply (after acts) = { after acts with work := rest }
  /-- Without work there is nothing to carry out. -/
  idle : (after acts).work = [] → Act.item.apply (after acts) = after acts
  /-- The work is carried out from the front, each item with all that it sets off before those
  behind it. -/
  order : ∀ {items rest : List (Work V D)}, (after acts).work = items ++ rest →
    (after acts).drain = (({ after acts with work := items } : Board V D).drain.push rest).drain
  /-- All the work is carried out in the end. -/
  finished : ∃ n, after (acts ++ List.replicate n .item) = (after acts).drain ∧
    (after acts).drain.work = []

section

variable {acts : List (Act V D)} {i : Nat} {c : Cell V Nat (Reaction V D)}

theorem lt_length_of_calls (h : calls acts i ≠ []) : i < (after acts).cells.length := by
  by_contra hle
  exact h ((cells_after acts i).2 (Nat.le_of_not_lt hle))

theorem isSettled_after (hc : (after acts).cells[i]? = some c) :
    c.isSettled = Cell.attempted (calls acts i) := by
  rw [(cells_after acts i).1 c hc, Cell.isSettled_after]

theorem getElem?_after (h : i < (after acts).cells.length) :
    (after acts).cells[i]? = some (Cell.after (calls acts i)) := by
  have hc := List.getElem?_eq_getElem h
  exact hc.trans (congrArg some ((cells_after acts i).1 _ hc))

/-- Whatever is done to a board, in whatever order. -/
theorem settling (acts : List (Act V D)) : Settling acts where
  pending hi h := (getElem?_after hi).trans (congrArg some (Cell.after_of_pending h))
  settled {i v before rest} hcalls h := by
    obtain ⟨taken, hafter⟩ := Cell.after_of_settle h v rest
    have hi : i < (after acts).cells.length := lt_length_of_calls (by simp [hcalls])
    exact ⟨taken, (getElem?_after hi).trans (congrArg some (by rw [hcalls, hafter]))⟩
  once := balance_after acts
  won {a i v} ha h := by
    obtain ⟨c, hc, happly⟩ := Act.apply_of_call ha
    obtain rfl := ((cells_after acts i).1 c hc).trans (Cell.after_of_pending h)
    have hwins : (after acts).wins i = true := wins_eq hc
    refine ⟨hwins, ?_⟩
    rw [happly, hwins]
    simp only [Call.sets, ← waiting_eq]
    rfl
  lost {a i v} ha h := by
    obtain ⟨c, hc, happly⟩ := Act.apply_of_call ha
    have hset : c.isSettled = true := (isSettled_after hc).trans h
    have hwins : (after acts).wins i = false := by rw [wins_eq hc, hset]; rfl
    refine ⟨hwins, ?_⟩
    rw [happly, hwins, Cell.apply_of_isSettled hset (by simp), set_of_getElem? hc, Call.sets,
      Cell.signals_of_isSettled hset]
    rfl
  kept {a i r} ha h := by
    obtain ⟨c, hc, happly⟩ := Act.apply_of_call ha
    obtain rfl := ((cells_after acts i).1 c hc).trans (Cell.after_of_pending h)
    rw [happly, report_of_register ha]
    rfl
  inline {a i r} ha h := by
    obtain ⟨c, hc, happly⟩ := Act.apply_of_call ha
    have hset : c.isSettled = true := (isSettled_after hc).trans h
    rw [happly, report_of_register ha, Cell.apply_of_isSettled hset (by simp), set_of_getElem? hc,
      Call.sets, if_pos hset]
    rfl
  asked hx hk := exists_of_ask hx hk
  absent hi x := call_of_none (List.getElem?_eq_none hi) x
  made := rfl
  cloned _ := rfl
  named := cell?_eq_some_iff
  runs h := apply_item h
  seen h := apply_item h
  queried {handle i label c rest} h hc := by
    have hset := isSettled_after (getElem?_of_cell? hc)
    rw [apply_item h, ← hset]
    exact perform_query (b := { after acts with work := rest }) hc label
  stray {action rest} h hc := by
    rw [apply_item h]
    exact perform_of_none (b := { after acts with work := rest }) hc
  idle h := apply_item_of_nil h
  order {items rest} h := by
    have hb : after acts = { ({ after acts with work := items } : Board V D) with
      work := items ++ rest } := by rw [← h]
    conv_lhs => rw [hb]
    exact drain_behind { after acts with work := items } rest
  finished := ⟨_, (play_append acts _ _).trans (play_rounds _), work_drain _⟩

end

end Board

end RequestScheduler
