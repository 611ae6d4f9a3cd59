import RequestScheduler.Toml.Value

/-!
# Numbers in TOML

Digits may be grouped by single underscores. A decimal number may have a sign and has no needless
leading zero; a number in another base has a mark for its base and no sign. A number with a point
or an exponent is kept as the decimal that is written.
-/

namespace RequestScheduler.Toml

/-- The digits without the underscores between them: there is a digit on both sides of each. -/
def ungroup (isDigit : Char → Bool) : List Char → Option (List Char)
  | [] => none
  | [c] => if isDigit c then some [c] else none
  | c :: '_' :: rest => if isDigit c then (ungroup isDigit rest).map (c :: ·) else none
  | c :: rest => if isDigit c then (ungroup isDigit rest).map (c :: ·) else none

/-- The value of a digit. Letters count on from ten. -/
def digitValue (c : Char) : Nat :=
  if '0' ≤ c ∧ c ≤ '9' then c.toNat - '0'.toNat
  else if 'a' ≤ c ∧ c ≤ 'f' then c.toNat - 'a'.toNat + 10
  else c.toNat - 'A'.toNat + 10

/-- The number that digits stand for. -/
def ofDigits (base : Nat) (ds : List Char) : Nat :=
  ds.foldl (fun n d => n * base + digitValue d) 0

def isDecimal (c : Char) : Bool := '0' ≤ c && c ≤ '9'
def isOctal (c : Char) : Bool := '0' ≤ c && c ≤ '7'
def isBinary (c : Char) : Bool := c == '0' || c == '1'

def isHexadecimal (c : Char) : Bool :=
  isDecimal c || ('a' ≤ c && c ≤ 'f') || ('A' ≤ c && c ≤ 'F')

/-- The digits of a decimal number without a sign: no zero leads another digit. -/
def wholeDigits? (s : List Char) : Option (List Char) :=
  match ungroup isDecimal s with
  | some ('0' :: _ :: _) => none
  | ds => ds

/-- A sign, if there is one, and what follows it. -/
def splitSign : List Char → Bool × List Char
  | '-' :: rest => (true, rest)
  | '+' :: rest => (false, rest)
  | s => (false, s)

/-- An integer. -/
def integer? (s : List Char) : Option Int :=
  match s with
  | '0' :: 'x' :: rest => (ungroup isHexadecimal rest).map fun ds => (ofDigits 16 ds : Int)
  | '0' :: 'o' :: rest => (ungroup isOctal rest).map fun ds => (ofDigits 8 ds : Int)
  | '0' :: 'b' :: rest => (ungroup isBinary rest).map fun ds => (ofDigits 2 ds : Int)
  | _ =>
    let (negative, rest) := splitSign s
    (wholeDigits? rest).map fun ds =>
      if negative then -(ofDigits 10 ds : Int) else (ofDigits 10 ds : Int)

/-- The exponent of a number, after its mark. Here zeros may lead. -/
def exponent? (s : List Char) : Option Int :=
  let (negative, rest) := splitSign s
  (ungroup isDecimal rest).map fun ds =>
    if negative then -(ofDigits 10 ds : Int) else (ofDigits 10 ds : Int)

def isExponentMark (c : Char) : Bool := c == 'e' || c == 'E'

/-- A number with a point, an exponent, or both, without its sign. -/
def magnitude? (s : List Char) : Option Decimal := do
  let mantissa := s.takeWhile fun c => !isExponentMark c
  let whole ← wholeDigits? (mantissa.takeWhile (· != '.'))
  let fraction ← match mantissa.dropWhile (· != '.') with
    | [] => if mantissa.length = s.length then none else some []
    | _ :: ds => ungroup isDecimal ds
  let exponent ← match s.dropWhile fun c => !isExponentMark c with
    | [] => some 0
    | _ :: ds => exponent? ds
  return { digits := ofDigits 10 (whole ++ fraction), exponent := exponent - fraction.length }

/-- A number that is no integer. -/
def real? (s : List Char) : Option Real :=
  let (negative, rest) := splitSign s
  if rest = ['i', 'n', 'f'] then some (.infinite negative)
  else if rest = ['n', 'a', 'n'] then some .undefined
  else (magnitude? rest).map (.finite negative)

end RequestScheduler.Toml
