import RequestScheduler.Decimal.Binary

/-!
# What a TOML document says

A document is a list of statements: assignments of values to keys, and headers that name the table
for the assignments after them. A key is a path of parts. Places in the source are counted in
characters from its start.
-/

namespace RequestScheduler.Toml

/-- A stretch of the source. -/
structure Span where
  start : Nat
  stop : Nat
  deriving DecidableEq, Repr, Inhabited

/-- One part of a key: its name, and where it stands, quotes included. -/
structure Part where
  name : String
  span : Span
  deriving DecidableEq, Repr, Inhabited

/-- A number with a point or an exponent. -/
inductive Real where
  | finite (negative : Bool) (magnitude : Decimal)
  | infinite (negative : Bool)
  | undefined
  deriving DecidableEq, Repr

/-- A value. -/
inductive Value where
  | text (s : String)
  | integer (n : Int)
  | real (r : Real)
  | boolean (b : Bool)
  /-- A date, a time of day, or both. -/
  | moment
  | list (items : List Value)
  | table (pairs : List (List Part × Value))
  deriving Repr, Inhabited

/-- A statement of a document. -/
inductive Statement where
  /-- Gives the value that stands at `span` to a key. -/
  | assign (key : List Part) (value : Value) (span : Span)
  /-- Starts a table, or the next table of an array of tables. -/
  | header (key : List Part) (isArray : Bool) (span : Span)
  deriving Repr, Inhabited

end RequestScheduler.Toml
