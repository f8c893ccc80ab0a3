import TaskTree.Decimal.Numeral

/-!
# Binary floating-point numbers as exact fractions

A finite number of the 64-bit format is `mantissa * 2 ^ scale`.  The reals that
round to it form an interval: its ends lie half-way to the two neighbours, and
belong to it exactly when the mantissa is even.  `Binary.contains` is that
interval, decided in exact integer arithmetic.
-/

namespace TaskTree

/-- A finite non-negative number `mantissa * 2 ^ scale` of the 64-bit format. -/
structure Binary where
  mantissa : Nat
  scale : Int
  /-- The neighbour below is half as far away as the neighbour above. -/
  narrowBelow : Bool
deriving DecidableEq, Repr

namespace Binary

/-- The magnitude of the finite number with the given bits. -/
def ofBits (bits : UInt64) : Binary :=
  let exponent := ((bits >>> 52) &&& 0x7FF).toNat
  let fraction := (bits &&& 0xFFFFFFFFFFFFF).toNat
  if exponent = 0 then
    { mantissa := fraction, scale := -1074, narrowBelow := false }
  else
    { mantissa := 0x10000000000000 + fraction
      scale := (exponent : Int) - 1075
      narrowBelow := fraction = 0 && 1 < exponent }

/-- Compares `a * 10 ^ i` with `b * 2 ^ j`. -/
def compareScaled (a : Nat) (i : Int) (b : Nat) (j : Int) : Ordering :=
  compare
    (a * Nat.pow 10 i.toNat * Nat.pow 2 (-j).toNat)
    (b * Nat.pow 2 j.toNat * Nat.pow 10 (-i).toNat)

/-- Whether `digits * 10 ^ exponent` lies among the reals that round to the number. -/
def contains (x : Binary) (digits : Nat) (exponent : Int) : Bool :=
  let low := if x.narrowBelow then 4 * x.mantissa - 1 else 4 * x.mantissa - 2
  let high := 4 * x.mantissa + 2
  let closed := x.mantissa % 2 = 0
  let atLow := compareScaled digits exponent low (x.scale - 2)
  let atHigh := compareScaled digits exponent high (x.scale - 2)
  (atLow = .gt || (closed && atLow = .eq)) && (atHigh = .lt || (closed && atHigh = .eq))

/-- The number divided by `10 ^ exponent`, rounded down. -/
def quotient (x : Binary) (exponent : Int) : Nat :=
  (x.mantissa * Nat.pow 2 x.scale.toNat * Nat.pow 10 (-exponent).toNat)
    / (Nat.pow 2 (-x.scale).toNat * Nat.pow 10 exponent.toNat)

end Binary
end TaskTree
