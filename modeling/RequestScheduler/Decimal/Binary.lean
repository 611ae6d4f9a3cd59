/-!
# Binary numbers and the decimals that stand for them

A number of 64 bits stands for an interval of reals: those that are nearer to it than to its
neighbours, with both ends if its significand is even. A decimal in that interval reads back to the
number. Everything is decided in exact arithmetic on naturals.
-/

namespace RequestScheduler

/-- The number `digits * 10 ^ exponent`. -/
structure Decimal where
  digits : Nat
  exponent : Int
  deriving DecidableEq, Repr

/-- The number `significand * 2 ^ exponent`, as one of the finite numbers of 64 bits. -/
structure Binary where
  significand : Nat
  exponent : Int
  /-- The neighbour below is half as far away as the neighbour above. -/
  narrowBelow : Bool
  deriving DecidableEq, Repr

namespace Binary

/-- The finite number with these bits, without its sign. -/
def ofBits (b : UInt64) : Binary :=
  let exponent := ((b >>> 52) &&& 0x7FF).toNat
  let fraction := (b &&& 0xFFFFFFFFFFFFF).toNat
  if exponent = 0 then { significand := fraction, exponent := -1074, narrowBelow := false }
  else
    { significand := 0x10000000000000 + fraction
      exponent := (exponent : Int) - 1075
      narrowBelow := fraction == 0 && decide (1 < exponent) }

/-- Compares `a * 10 ^ i` with `b * 2 ^ j`. -/
def compareScaled (a : Nat) (i : Int) (b : Nat) (j : Int) : Ordering :=
  compare (a * Nat.pow 10 i.toNat * Nat.pow 2 (-j).toNat)
    (b * Nat.pow 2 j.toNat * Nat.pow 10 (-i).toNat)

/-- Whether a decimal is nearer to this number than to its neighbours. -/
def readsBack (x : Binary) (d : Decimal) : Bool :=
  let below := if x.narrowBelow then 4 * x.significand - 1 else 4 * x.significand - 2
  let above := 4 * x.significand + 2
  let ends := x.significand % 2 == 0
  let low := compareScaled d.digits d.exponent below (x.exponent - 2)
  let high := compareScaled d.digits d.exponent above (x.exponent - 2)
  (low == .gt || (ends && low == .eq)) && (high == .lt || (ends && high == .eq))

end Binary

/-- The greatest power of ten that a finite number of 64 bits can reach, with some room. -/
def Decimal.greatestScale : Int := 310

/-- The power of ten below which every number of 64 bits is zero, with some room. -/
def Decimal.leastScale : Int := -330

/-- The nearest number of 64 bits, unless the decimal is beyond the finite ones. -/
def Decimal.toBinary? (d : Decimal) : Option Binary :=
  let scale := d.exponent + (Nat.toDigits 10 d.digits).length
  if d.digits = 0 || scale < leastScale then
    some { significand := 0, exponent := -1074, narrowBelow := false }
  else if greatestScale < scale then none
  else
    let x := Float.ofScientific d.digits (decide (d.exponent < 0)) d.exponent.natAbs
    if x.isInf then none else some (.ofBits x.toBits)

end RequestScheduler
