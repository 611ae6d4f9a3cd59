import RequestScheduler.Toml.Value

/-!
# The top level of a document

Each key at the top level of a document is given a value, a table or an array of tables. Its entry
says where the key stands first and where stands what it is given: the value itself, the header of
the table or the array, or else the part of the longer key through which the table came about.

The entries of a document are in the order in which their keys stand first. They are meant for a
document without a clash.
-/

namespace RequestScheduler.Toml

/-- What a key of the top level is given. -/
inductive Given where
  | value (v : Value)
  | table
  /-- An array of tables. -/
  | tables
  deriving Repr, Inhabited

/-- A key of the top level with what it is given. -/
structure Entry where
  key : Part
  given : Given
  /-- Where stands what the key is given. -/
  span : Span
  deriving Repr, Inhabited

/-- The entries after one more. The key of an entry that is there keeps its place; a table that gets
its header late is shown by it. -/
def Entry.add (e : Entry) (isHeader : Bool) : List Entry → List Entry
  | [] => [e]
  | f :: rest =>
    if f.key.name = e.key.name then
      match isHeader, f.given with
      | true, .table => { f with span := e.span } :: rest
      | _, _ => f :: rest
    else f :: e.add isHeader rest

/-- The entries of a document, from those of its first statements on. Assignments below a header are
not at the top level. -/
def entriesFrom (belowHeader : Bool) (entries : List Entry) : List Statement → List Entry
  | [] => entries
  | .assign [p] v span :: rest =>
    entriesFrom belowHeader
      (if belowHeader then entries
       else Entry.add { key := p, given := .value v, span } false entries) rest
  | .assign (p :: _) _ _ :: rest =>
    entriesFrom belowHeader
      (if belowHeader then entries
       else Entry.add { key := p, given := .table, span := p.span } false entries) rest
  | .header [p] isArray span :: rest =>
    entriesFrom true
      (Entry.add { key := p, given := if isArray then .tables else .table, span } true entries) rest
  | .header (p :: _) _ _ :: rest =>
    entriesFrom true (Entry.add { key := p, given := .table, span := p.span } false entries) rest
  | .assign [] _ _ :: rest => entriesFrom belowHeader entries rest
  | .header [] _ _ :: rest => entriesFrom true entries rest

/-- The entries of a document. -/
def entries (statements : List Statement) : List Entry := entriesFrom false [] statements

end RequestScheduler.Toml
