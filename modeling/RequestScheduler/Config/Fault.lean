import RequestScheduler.Config
import RequestScheduler.Decimal.Shortest
import RequestScheduler.Text.Quoted
import RequestScheduler.Toml.Excerpt

/-!
# What can be wrong with a written configuration

A written configuration has two fields, both of them numbers of 64 bits. A fault is found at one
place of the source: a key that is no field, a key that is there twice, or something that is no
such number. Its text names the place, shows it, and gives the reason.
-/

namespace RequestScheduler.Config

open Toml (Span)

/-- The fields of a configuration. -/
inductive Field where
  | reads
  | timeout
  deriving DecidableEq, Repr

/-- The key of a field. -/
def Field.key : Field → String
  | .reads => readsKey
  | .timeout => timeoutKey

/-- What a field is expected to hold. -/
def Field.expectation : Field → String
  | .reads => "usize"
  | .timeout => "u64"

/-- The field with a key. -/
def Field.ofKey? (key : String) : Option Field :=
  if key = readsKey then some .reads
  else if key = timeoutKey then some .timeout
  else none

/-- What stands where a number of 64 bits is expected. -/
inductive Mismatch where
  /-- A negative number of 64 bits. -/
  | negative (n : Int)
  /-- A number that takes more than 64 bits, but not more than 128 with a sign. -/
  | wide (n : Int)
  /-- A number that takes 128 bits and leaves no room for a sign. -/
  | wideUnsigned (n : Int)
  /-- A number that takes more than 128 bits. -/
  | tooWide
  | text (s : String)
  | boolean (b : Bool)
  | real (isNegative : Bool) (magnitude : Binary)
  | infinite (isNegative : Bool)
  | undefined
  /-- A number with a point or an exponent, beyond all finite ones of 64 bits. -/
  | tooLarge
  | list
  | table
  deriving DecidableEq, Repr

/-- What a number with a sign begins with. -/
def signText (isNegative : Bool) : String := if isNegative then "-" else ""

/-- The reason that is given for a mismatch. -/
def Mismatch.reason (field : Field) (m : Mismatch) : String :=
  let expected := ", expected " ++ field.expectation
  let type (s : String) : String := "invalid type: " ++ s ++ expected
  let real (s : String) : String := type ("floating point `" ++ s ++ "`")
  match m with
  | .negative n => "invalid value: integer `" ++ toString n ++ "`" ++ expected
  | .wide n => type ("integer `" ++ toString n ++ "` as i128")
  | .wideUnsigned n => type ("integer `" ++ toString n ++ "` as u128")
  | .tooWide => "integer number overflowed"
  | .text s => type ("string " ++ Text.quote s)
  | .boolean b => type ("boolean `" ++ (if b then "true" else "false") ++ "`")
  | .real isNegative x => real (signText isNegative ++ x.shortest.text)
  | .infinite isNegative => real (signText isNegative ++ "inf")
  | .undefined => real "NaN"
  | .tooLarge => "floating-point number overflowed"
  | .list => type "sequence"
  | .table => type "map"

/-- A fault of a written configuration, with its place. -/
inductive Fault where
  | unknownField (name : String) (span : Span)
  | duplicateKey (span : Span)
  | mismatch (field : Field) (m : Mismatch) (span : Span)
  deriving DecidableEq, Repr

namespace Fault

/-- The place of a fault. -/
def span : Fault → Span
  | .unknownField _ s => s
  | .duplicateKey s => s
  | .mismatch _ _ s => s

/-- The reason that is given for a fault. -/
def reason : Fault → String
  | .unknownField name _ =>
    "unknown field `" ++ name ++ "`, expected `" ++ readsKey ++ "` or `" ++ timeoutKey ++ "`"
  | .duplicateKey _ => "duplicate key"
  | .mismatch field m _ => m.reason field

/-- The text of a fault in its source. -/
def message (source : String) (f : Fault) : String :=
  let e := f.span.excerpt source.toList
  "TOML parse error: TOML parse error at line " ++ toString e.line ++ ", column " ++
    toString e.column ++ "\n" ++ e.text ++ f.reason ++ "\n"

end Fault

/-- Why a written configuration is refused. -/
inductive ReadError where
  /-- It is not written in TOML. -/
  | malformed
  | fault (f : Fault)
  /-- It is well written, but a value is out of range. -/
  | invalid (e : InvalidField)
  deriving DecidableEq, Repr

end RequestScheduler.Config
