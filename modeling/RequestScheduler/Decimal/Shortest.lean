import RequestScheduler.Decimal.Binary

/-!
# The shortest decimal of a binary number

Among the decimals that read back to a number, the ones with the fewest digits are preferred, and
among those the nearest. The text of a number is positional: it has a point and at least one digit
on both sides of it, and no exponent.
-/

namespace RequestScheduler

namespace Binary

/-- Whether this number is below a power of ten. -/
def isBelow (x : Binary) (k : Int) : Bool :=
  compareScaled 1 k x.significand x.exponent == .gt

/-- The least power of ten that is above this number. -/
def scale (x : Binary) : Int :=
  let start := ((Nat.log2 x.significand : Int) + x.exponent) * 30103 / 100000 - 1
  (((List.range 5).map fun i : Nat => start + (i : Int)).find? x.isBelow).getD (start + 5)

/-- The multiple of a power of ten that is next below this number. -/
def floorOn (x : Binary) (exponent : Int) : Nat :=
  (x.significand * Nat.pow 2 x.exponent.toNat * Nat.pow 10 (-exponent).toNat) /
    (Nat.pow 10 exponent.toNat * Nat.pow 2 (-x.exponent).toNat)

/-- The better of the two neighbours of this number on a decimal grid, if one of them reads back. A
tie goes up. -/
def nearestOn? (x : Binary) (exponent : Int) : Option Decimal :=
  let low : Decimal := { digits := x.floorOn exponent, exponent }
  let high : Decimal := { digits := low.digits + 1, exponent }
  match x.readsBack low, x.readsBack high with
  | true, true =>
    if compareScaled (low.digits + high.digits) exponent (2 * x.significand) x.exponent == .gt then
      some low
    else some high
  | true, false => some low
  | false, true => some high
  | false, false => none

/-- The exact value of this number. -/
def exact (x : Binary) : Decimal where
  digits := x.significand * Nat.pow 2 x.exponent.toNat * Nat.pow 5 (-x.exponent).toNat
  exponent := min x.exponent 0

/-- The decimal with the fewest digits that reads back. -/
def shortest (x : Binary) : Decimal :=
  if x.significand = 0 then { digits := 0, exponent := 0 }
  else
    ((List.range 17).findSome? fun n => x.nearestOn? (x.scale - (n + 1 : Nat))).getD x.exact

end Binary

/-- The positional text of a decimal, with at least one digit on both sides of the point. -/
def Decimal.text (d : Decimal) : String :=
  let ds := Nat.toDigits 10 d.digits
  let places := (-d.exponent).toNat
  if 0 ≤ d.exponent then
    let zeros := List.replicate d.exponent.toNat '0'
    String.ofList (if d.digits = 0 then ['0'] else ds ++ zeros) ++ ".0"
  else
    let ds := List.replicate (places + 1 - ds.length) '0' ++ ds
    let whole := ds.length - places
    String.ofList (ds.take whole) ++ "." ++ String.ofList (ds.drop whole)

end RequestScheduler
