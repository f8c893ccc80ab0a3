import TaskTree.Decimal.Binary

/-!
# The shortest decimal that reads back

Among the decimals that round to a given binary number, `Binary.shortest`
selects one with the fewest digits, and of those the nearest to the number.
Grids of ten-powers are tried from coarse to fine; on each only the two
neighbours of the number can be the nearest.
-/

namespace TaskTree

/-- Which of two equally near decimals is taken. -/
inductive Tie where
  | toEven
  | upward
deriving DecidableEq, Repr

namespace Binary

/-- An exponent `k` with the number below `10 ^ k`, and not far below: the decimal length of the
number is estimated from its binary length. -/
def magnitude (x : Binary) : Int :=
  let estimate := ((x.mantissa.log2 + x.scale) * 30103) / 100000
  if compareScaled 1 estimate x.mantissa x.scale = .gt then estimate
  else if compareScaled 1 (estimate + 1) x.mantissa x.scale = .gt then estimate + 1
  else estimate + 2

/-- The decimal on the grid `10 ^ exponent` that is nearest to the number, if one of the two
neighbours on the grid reads back. -/
def nearestOnGrid (tie : Tie) (x : Binary) (exponent : Int) : Option Nat :=
  let below := x.quotient exponent
  let above := below + 1
  match x.contains below exponent && below ≠ 0, x.contains above exponent with
  | true, false => some below
  | false, true => some above
  | false, false => none
  | true, true =>
      -- twice the number against the sum of the two neighbours
      match compareScaled (below + above) exponent x.mantissa (x.scale + 1) with
      | .gt => some below
      | .lt => some above
      | .eq =>
          match tie with
          | .upward => some above
          | .toEven => some (if below % 2 = 0 then below else above)

/-- Tries `steps` grids, each ten times finer than the one before. -/
def searchGrids (tie : Tie) (x : Binary) : Nat → Int → Option (Nat × Int)
  | 0, _ => none
  | steps + 1, exponent =>
      match nearestOnGrid tie x exponent with
      | some digits => some (digits, exponent)
      | none => searchGrids tie x steps (exponent - 1)

/-- The exact value of the number as a decimal. -/
def exact (x : Binary) : Nat × Int :=
  if 0 ≤ x.scale then (x.mantissa * Nat.pow 2 x.scale.toNat, 0)
  else (x.mantissa * Nat.pow 5 (-x.scale).toNat, x.scale)

/-- Moves trailing zeros of the digits into the exponent. -/
def stripZeros (digits : Nat) (exponent : Int) : Nat × Int :=
  if digits ≠ 0 ∧ digits % 10 = 0 then stripZeros (digits / 10) (exponent + 1)
  else (digits, exponent)
termination_by digits
decreasing_by omega

/-- The decimal `digits * 10 ^ exponent` with the fewest digits that reads back as the number,
and the nearest of those.  Seventeen digits always suffice. -/
def shortest (tie : Tie) (x : Binary) : Nat × Int :=
  let found := (searchGrids tie x 18 (x.magnitude - 1)).getD x.exact
  stripZeros found.1 found.2

end Binary
end TaskTree
