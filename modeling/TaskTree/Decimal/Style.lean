import TaskTree.Decimal.Shortest

/-!
# How a floating-point number is written

The digits are the shortest that read back; a `NumberStyle` holds the remaining
decisions of a format.  `Numeral.ofFloat` writes every finite number, zeros
included, in a given style.
-/

namespace TaskTree

/-- The decisions of an output format on floating-point numbers. -/
structure NumberStyle where
  /-- The least power of ten of a leading digit that is written without an exponent. -/
  plainFrom : Int
  /-- The least power of ten above it that needs an exponent again. -/
  plainBelow : Int
  /-- Whether the sign of an exponent is always written. -/
  plus : Bool
  /-- Which of two equally near decimals is taken. -/
  tie : Tie

/-- Digits with a point among, behind or before them. -/
def Numeral.plain (negative : Bool) (digits : List Char) (exponent : Int) : Numeral :=
  let point := (digits.length : Int) + exponent
  if point ≤ 0 then
    { negative
      whole := ['0']
      fraction := List.replicate (-point).toNat '0' ++ digits
      exponent := none }
  else if exponent < 0 then
    { negative
      whole := digits.take point.toNat
      fraction := digits.drop point.toNat
      exponent := none }
  else
    { negative
      whole := digits ++ List.replicate exponent.toNat '0'
      fraction := ['0']
      exponent := none }

/-- One digit, the others after the point, and a power of ten. -/
def Numeral.scientific (negative : Bool) (digits : List Char) (exponent : Int) : Numeral where
  negative := negative
  whole := digits.take 1
  fraction := digits.drop 1
  exponent := some ((digits.length : Int) + exponent - 1)

/-- The numeral of a finite number: its shortest digits in the given style. -/
def Numeral.ofFloat (style : NumberStyle) (x : Float) : Numeral :=
  let bits := x.toBits
  let negative := bits >>> 63 = 1
  let magnitude := Binary.ofBits bits
  if magnitude.mantissa = 0 then
    { negative, whole := ['0'], fraction := ['0'], exponent := none }
  else
    let (digits, exponent) := magnitude.shortest style.tie
    let leading := (digitsOf digits).length + exponent - 1
    if style.plainFrom ≤ leading ∧ leading < style.plainBelow then
      Numeral.plain negative (digitsOf digits) exponent
    else
      Numeral.scientific negative (digitsOf digits) exponent

end TaskTree
