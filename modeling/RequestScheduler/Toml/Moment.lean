import RequestScheduler.Toml.Number

/-!
# Dates and times in TOML

A date has a year, a month and a day of that month. A time of day has hours and minutes, and may
have seconds with a fraction. A date may be followed by a time, after a `T` or one blank, and the
time by its offset. Only whether a word is such a moment matters here.
-/

namespace RequestScheduler.Toml

/-- The number of `count` digits at the front, and what follows them. -/
def fixedDigits? (count : Nat) (s : List Char) : Option (Nat × List Char) :=
  let ds := s.take count
  if ds.length = count && ds.all isDecimal then some (ofDigits 10 ds, s.drop count) else none

def isLeapYear (year : Nat) : Bool := year % 4 == 0 && (year % 100 != 0 || year % 400 == 0)

def daysIn (year month : Nat) : Nat :=
  if month == 2 then (if isLeapYear year then 29 else 28)
  else if month == 4 || month == 6 || month == 9 || month == 11 then 30
  else 31

/-- What follows a date. -/
def afterDate? (s : List Char) : Option (List Char) := do
  let (year, s) ← fixedDigits? 4 s
  let s ← match s with
    | '-' :: s => some s
    | _ => none
  let (month, s) ← fixedDigits? 2 s
  let s ← match s with
    | '-' :: s => some s
    | _ => none
  let (day, s) ← fixedDigits? 2 s
  if 1 ≤ month ∧ month ≤ 12 ∧ 1 ≤ day ∧ day ≤ daysIn year month then some s else none

/-- What follows the hours and minutes of a time. -/
def afterMinutes? (s : List Char) : Option (List Char) := do
  let (hour, s) ← fixedDigits? 2 s
  let s ← match s with
    | ':' :: s => some s
    | _ => none
  let (minute, s) ← fixedDigits? 2 s
  if hour < 24 ∧ minute < 60 then some s else none

/-- What follows a time of day. A minute may have a second more than sixty, to set clocks right. -/
def afterTime? (s : List Char) : Option (List Char) := do
  let s ← afterMinutes? s
  match s with
  | ':' :: s =>
    let (second, s) ← fixedDigits? 2 s
    if second ≤ 60 then
      match s with
      | '.' :: c :: s => if isDecimal c then some (s.dropWhile isDecimal) else none
      | '.' :: [] => none
      | s => some s
    else none
  | s => some s

/-- Whether a word is nothing or an offset. -/
def isOffset (s : List Char) : Bool :=
  match s with
  | [] | ['Z'] | ['z'] => true
  | '+' :: s | '-' :: s => afterMinutes? s == some []
  | _ => false

/-- Whether a word is a date. -/
def isDate (s : List Char) : Bool := afterDate? s == some []

/-- Whether a word is a time of day with its offset. -/
def isTimeWithOffset (s : List Char) : Bool := (afterTime? s).any isOffset

/-- Whether a word is a moment. -/
def isMoment (s : List Char) : Bool :=
  afterTime? s == some [] ||
    match afterDate? s with
    | some [] => true
    | some (c :: rest) => (c == 'T' || c == 't') && isTimeWithOffset rest
    | none => false

end RequestScheduler.Toml
