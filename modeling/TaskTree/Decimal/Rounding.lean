import TaskTree.Decimal.Numeral

/-!
# Reading numerals as floating-point numbers

`Numeral.nearest` rounds the exact value of a numeral once, to the nearest
number of the 64-bit format.  `Numeral.stepwise?` rounds step by step: it keeps
the digits that fit into 64 bits, rounds them, and then multiplies or divides by
a power of ten, which rounds again; a result out of range is refused.
-/

namespace TaskTree
namespace Numeral

/-- Gives a magnitude its sign. -/
def signed (negative : Bool) (x : Float) : Float :=
  if negative then -x else x

/-- The infinity of the 64-bit format. -/
def infinity : Float :=
  Float.ofBits 0x7FF0000000000000

/-- The number nearest to the exact value of a numeral; of two equally near ones the one with
the even mantissa.  What is too large becomes infinite, what is too small zero. -/
def nearest (n : Numeral) : Float :=
  let digits := digitsValue (n.whole ++ n.fraction)
  let exponent := n.exponent.getD 0 - n.fraction.length
  let magnitude :=
    if digits = 0 then 0
    -- far outside the range of the format, so that no huge power of ten is computed
    else if 400 < (digitsOf digits).length + exponent then infinity
    else if (digitsOf digits).length + exponent < -400 then 0
    else Float.ofScientific digits (exponent < 0) exponent.natAbs
  signed n.negative magnitude

/-- The power of ten nearest to `10 ^ n`. -/
def powerOfTen (n : Nat) : Float :=
  Float.ofScientific 1 false n

/-- Appends digits to a number for as long as it stays below `2 ^ 64`, and returns the digits
that no longer fit. -/
def absorb (total : Nat) : List Char → Nat × List Char
  | [] => (total, [])
  | c :: digits =>
      let next := 10 * total + digitsValue [c]
      if next < UInt64.size then absorb next digits else (total, c :: digits)

/-- Multiplies by a power of ten in steps of at most `10 ^ 308`, each of which rounds.  There is
no result if it would be infinite. -/
def rescale? (x : Float) (exponent : Int) : Option Float :=
  if exponent.natAbs ≤ 308 then
    if 0 ≤ exponent then
      let product := x * powerOfTen exponent.natAbs
      if product.isInf then none else some product
    else
      some (x / powerOfTen exponent.natAbs)
  else if x == 0 then
    some x
  else if 0 ≤ exponent then
    none
  else
    rescale? (x / powerOfTen 308) (exponent + 308)
termination_by exponent.natAbs
decreasing_by omega

/-- The number that a numeral stands for when it is read digit by digit. -/
def stepwise? (n : Numeral) : Option Float :=
  let (whole, unreadWhole) := absorb 0 n.whole
  let (total, unreadFraction) := absorb whole n.fraction
  let places := n.fraction.length - unreadFraction.length
  let exponent := n.exponent.getD 0 + unreadWhole.length - places
  (rescale? total.toUInt64.toFloat exponent).map (signed n.negative)

end Numeral
end TaskTree
