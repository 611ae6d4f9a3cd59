import RequestScheduler.Toml.Value

/-!
# Which keys a document has taken

No key of a document is given twice. A table that came about because a header named something
inside it can still get its own header, once; a table that came about by a dotted key is extended by
dotted keys only; and a value is not extended at all. A new table of an array of tables starts
empty.

The outline of a document records which paths are taken, and how. The first statement that does not
fit in is a clash.
-/

namespace RequestScheduler.Toml

/-- How a path came to be taken. -/
inductive Form where
  /-- It has a value. -/
  | value
  /-- It is a table with a header. -/
  | header
  /-- It is a table because a header named something inside it. -/
  | implied
  /-- It is a table because a dotted key named something inside it. -/
  | dotted
  /-- It is an array of tables; what is recorded inside it belongs to the last table. -/
  | array
  deriving DecidableEq, Repr

/-- Why a statement does not fit in. -/
inductive Clash where
  /-- The part of a key that stands at `span` is taken. -/
  | duplicate (span : Span)
  /-- A key leads into something that is no table. -/
  | misplaced
  deriving DecidableEq, Repr

/-- The paths that are taken. -/
structure Outline where
  known : List (List String × Form) := []
  deriving Repr

namespace Outline

def form? (o : Outline) (path : List String) : Option Form := o.known.lookup path

/-- Records how a path is taken. -/
def set (path : List String) (form : Form) (o : Outline) : Outline where
  known := (path, form) :: o.known.filter (·.1 != path)

/-- Forgets what is inside a path. -/
def clear (path : List String) (o : Outline) : Outline where
  known := o.known.filter fun (p, _) => !(path.isPrefixOf p) || p == path

/-- Goes down a key, and takes what is free on the way. A dotted key does not lead into a table that
has a header. -/
def descend (isDotted : Bool) (base : List String) :
    List Part → Outline → Except Clash Outline
  | [], o => .ok o
  | p :: rest, o =>
    let path := base ++ [p.name]
    match o.form? path with
    | none => descend isDotted path rest (o.set path (if isDotted then .dotted else .implied))
    | some .value => .error .misplaced
    | some .header =>
      if isDotted then .error (.duplicate p.span) else descend isDotted path rest o
    | some _ => descend isDotted path rest o

/-- Takes the path of a key that is given a value in the table at `base`. -/
def assign (base : List String) (key : List Part) (o : Outline) : Except Clash Outline :=
  match key.getLast? with
  | none => .ok o
  | some last => do
    let o ← o.descend true base key.dropLast
    let parent := base ++ key.dropLast.map Part.name
    let path := parent ++ [last.name]
    if 1 < key.length && o.form? parent != some .dotted then .error (.duplicate last.span)
    else if (o.form? path).isSome then .error (.duplicate last.span)
    else .ok (o.set path .value)

/-- Takes the path of a header. -/
def enter (key : List Part) (isArray : Bool) (o : Outline) : Except Clash Outline :=
  match key.getLast? with
  | none => .ok o
  | some last => do
    let o ← o.descend false [] key.dropLast
    let path := key.map Part.name
    match isArray, o.form? path with
    | true, none | true, some .array => .ok ((o.clear path).set path .array)
    | false, none | false, some .implied => .ok (o.set path .header)
    | _, some _ => .error (.duplicate last.span)

end Outline

mutual

/-- The first clash within a value. -/
def Value.clash? : Value → Option Clash
  | .list items => clashOfItems? items
  | .table pairs => clashOfPairs? {} pairs
  | _ => none

/-- The first clash within the items of a list. -/
def clashOfItems? : List Value → Option Clash
  | [] => none
  | v :: rest => v.clash? <|> clashOfItems? rest

/-- The first clash within the assignments of a table in braces. -/
def clashOfPairs? (o : Outline) : List (List Part × Value) → Option Clash
  | [] => none
  | (key, v) :: rest =>
    match v.clash? with
    | some c => some c
    | none =>
      match o.assign [] key with
      | .error c => some c
      | .ok o => clashOfPairs? o rest

end

/-- The first clash of a document whose statements come after those of `o`, within the table at
`base`. -/
def clashFrom? (o : Outline) (base : List String) : List Statement → Option Clash
  | [] => none
  | .assign key v _ :: rest =>
    match v.clash? with
    | some c => some c
    | none =>
      match o.assign base key with
      | .error c => some c
      | .ok o => clashFrom? o base rest
  | .header key isArray _ :: rest =>
    match o.enter key isArray with
    | .error c => some c
    | .ok o => clashFrom? o (key.map Part.name) rest

/-- The first clash of a document. -/
def clash? (statements : List Statement) : Option Clash := clashFrom? {} [] statements

end RequestScheduler.Toml
