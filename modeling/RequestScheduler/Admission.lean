import RequestScheduler.Kind

/-!
# The admission record

The record takes every sequencing decision. It knows the requests that have not vacated their
slots, by their identifiers: the reads, the writes, and the write that reads wait for. It only
decides; cancelling and dispatching are left to the caller. Every operation first forgets the
requests that have vacated, which the caller names by a predicate.
-/

namespace RequestScheduler

/-- How an admitted read goes on. -/
inductive ReadPlan where
  /-- No write is outstanding: run now. -/
  | dispatch
  /-- Run when this write has vacated. -/
  | after (write : Nat)
  deriving DecidableEq, Repr

/-- How an admitted write goes on. -/
structure WritePlan where
  /-- Whom to cancel: the reads before it, then the write it supersedes. -/
  cancel : List Nat
  /-- Whom to wait for: the reads before it. -/
  waitFor : List Nat
  deriving DecidableEq, Repr

/-- A view of the record at one moment. -/
structure Snapshot where
  admittedReads : UInt64
  admittedWrites : UInt64
  /-- Writes that were outstanding when the next write was admitted. -/
  supersededWrites : UInt64
  /-- Submissions refused after the record was closed. -/
  rejected : UInt64
  outstandingReads : Nat
  outstandingWrites : Nat
  /-- Whether a write holds back newly admitted reads. -/
  writeCurrent : Bool
  closed : Bool
  deriving DecidableEq, Repr, Inhabited

/-- Counters and outstanding requests. -/
structure Admission where
  closed : Bool := false
  lastSeq : UInt64 := 0
  /-- The write admitted last, while it occupies its slot. -/
  currentWrite : Option Nat := none
  /-- Reads that have not vacated, in admission order. -/
  reads : List Nat := []
  /-- Writes that have not vacated, superseded ones too, in admission order. -/
  writes : List Nat := []
  admittedReads : UInt64 := 0
  admittedWrites : UInt64 := 0
  supersededWrites : UInt64 := 0
  rejected : UInt64 := 0
  deriving DecidableEq, Repr, Inhabited

namespace Admission

/-- Forgets the requests that have vacated. -/
def prune (vacated : Nat → Bool) (a : Admission) : Admission :=
  { a with
    reads := a.reads.filter fun i => !vacated i
    writes := a.writes.filter fun i => !vacated i
    currentWrite := a.currentWrite.filter fun i => !vacated i }

/-- The next sequence number. Numbers count from one and wrap at 64 bits. -/
def nextSeq (a : Admission) : UInt64 × Admission :=
  (a.lastSeq + 1, { a with lastSeq := a.lastSeq + 1 })

/-- Counts a refused submission. -/
def reject (a : Admission) : Admission := { a with rejected := a.rejected + 1 }

/-- A read waits for the current write, if there is one. -/
def admitRead (vacated : Nat → Bool) (read : Nat) (a : Admission) : ReadPlan × Admission :=
  let a := a.prune vacated
  let plan := match a.currentWrite with
    | some write => .after write
    | none => .dispatch
  (plan, { a with reads := a.reads ++ [read], admittedReads := a.admittedReads + 1 })

/-- A write becomes the current one. It is to cancel the outstanding reads and its predecessor,
and waits for the reads only. -/
def admitWrite (vacated : Nat → Bool) (write : Nat) (a : Admission) : WritePlan × Admission :=
  let a := a.prune vacated
  ({ cancel := a.reads ++ a.currentWrite.toList, waitFor := a.reads },
   { a with
     currentWrite := some write
     writes := a.writes ++ [write]
     admittedWrites := a.admittedWrites + 1
     supersededWrites :=
       if a.currentWrite.isSome then a.supersededWrites + 1 else a.supersededWrites })

/-- Every outstanding request: the writes, then the reads. -/
def outstanding (vacated : Nat → Bool) (a : Admission) : List Nat × Admission :=
  let a := a.prune vacated
  (a.writes ++ a.reads, a)

/-- Closes admission and hands back every outstanding request. -/
def close (vacated : Nat → Bool) (a : Admission) : List Nat × Admission :=
  let a := { a.prune vacated with closed := true }
  (a.writes ++ a.reads, { a with currentWrite := none, reads := [], writes := [] })

def snapshot (vacated : Nat → Bool) (a : Admission) : Snapshot × Admission :=
  let a := a.prune vacated
  ({ admittedReads := a.admittedReads
     admittedWrites := a.admittedWrites
     supersededWrites := a.supersededWrites
     rejected := a.rejected
     outstandingReads := a.reads.length
     outstandingWrites := a.writes.length
     writeCurrent := a.currentWrite.isSome
     closed := a.closed }, a)

end Admission

/-- The structural text of a snapshot: every field with its value. -/
def Snapshot.text (s : Snapshot) : String :=
  let field (name value : String) := name ++ ": " ++ value
  "ManagerSnapshot \x7b " ++ ", ".intercalate [
    field "admitted_reads" (toString s.admittedReads.toNat),
    field "admitted_writes" (toString s.admittedWrites.toNat),
    field "superseded_writes" (toString s.supersededWrites.toNat),
    field "rejected" (toString s.rejected.toNat),
    field "outstanding_reads" (toString s.outstandingReads),
    field "outstanding_writes" (toString s.outstandingWrites),
    field "write_current" (toString s.writeCurrent),
    field "closed" (toString s.closed)] ++ " \x7d"

end RequestScheduler
