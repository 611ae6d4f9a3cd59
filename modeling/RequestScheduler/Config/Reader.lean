import RequestScheduler.Config.Fault
import RequestScheduler.Toml.Document
import RequestScheduler.Toml.Entry
import RequestScheduler.Toml.Outline

/-!
# Reading a written configuration

A configuration is written in TOML, with its fields at the top level. A field that is not there has
its default; nothing else may be there. The entries are judged in their order, and the first fault
is the one that is reported. What has no fault is validated last.
-/

namespace RequestScheduler.Config

open Toml (Entry Given Statement Value)

/-- An integer as a number of 64 bits. -/
def numberOfInt? (n : Int) : Except Mismatch UInt64 :=
  if 0 ≤ n ∧ n < UInt64.size then .ok (UInt64.ofNat n.toNat)
  else if -0x8000000000000000 ≤ n ∧ n < 0 then .error (.negative n)
  else if -0x80000000000000000000000000000000 ≤ n ∧ n < 0x80000000000000000000000000000000 then
    .error (.wide n)
  else if 0 ≤ n ∧ n < 0x100000000000000000000000000000000 then .error (.wideUnsigned n)
  else .error .tooWide

/-- What a real number is instead of a number of 64 bits. -/
def mismatchOfReal : Toml.Real → Mismatch
  | .finite negative magnitude =>
    match magnitude.toBinary? with
    | some x => .real negative x
    | none => .tooLarge
  | .infinite negative => .infinite negative
  | .undefined => .undefined

/-- What an entry gives, as a number of 64 bits. -/
def number? : Given → Except Mismatch UInt64
  | .value (.integer n) => numberOfInt? n
  | .value (.text s) => .error (.text s)
  | .value (.boolean b) => .error (.boolean b)
  | .value (.real r) => .error (mismatchOfReal r)
  | .value (.list _) => .error .list
  | .value (.table _) => .error .table
  | .value .moment => .error .table
  | .table => .error .table
  | .tables => .error .list

/-- Sets a field. -/
def set (field : Field) (n : UInt64) (c : Config) : Config :=
  match field with
  | .reads => { c with maxConcurrentReads := some n }
  | .timeout => { c with shutdownTimeoutMs := n }

/-- The configuration after one more entry. -/
def accept (c : Config) (e : Entry) : Except Fault Config :=
  match Field.ofKey? e.key.name with
  | none => .error (.unknownField e.key.name e.key.span)
  | some field =>
    match number? e.given with
    | .ok n => .ok (c.set field n)
    | .error m => .error (.mismatch field m e.span)

/-- The configuration that a document gives, valid or not. -/
def ofStatements (statements : List Statement) : Except ReadError Config :=
  match Toml.clash? statements with
  | some (.duplicate span) => .error (.fault (.duplicateKey span))
  | some .misplaced => .error .malformed
  | none =>
    match (Toml.entries statements).foldlM accept {} with
    | .ok c => .ok c
    | .error f => .error (.fault f)

/-- Reads a configuration. -/
def read (source : String) : Except ReadError Config :=
  match Toml.read? source with
  | none => .error .malformed
  | some statements =>
    match ofStatements statements with
    | .error e => .error e
    | .ok c =>
      match c.validate with
      | .ok () => .ok c
      | .error e => .error (.invalid e)

end RequestScheduler.Config
