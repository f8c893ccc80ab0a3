/-!
# Decimal numerals

A numeral is what a decimal number looks like when it is written down: a sign,
digits before and after the point, and a power of ten.  It is kept apart from
the number that it stands for, since reading may round.
-/

namespace TaskTree

/-- The digits of a natural number, without leading zeros. -/
def digitsOf (n : Nat) : List Char :=
  Nat.toDigits 10 n

/-- The natural number that a run of digits stands for. -/
def digitsValue (digits : List Char) : Nat :=
  Nat.ofDigitChars 10 digits 0

/-- Digits read back as the number that they were written for. -/
@[simp] theorem digitsValue_digitsOf
    (n : Nat) :
    digitsValue (digitsOf n) = n :=
  Nat.ofDigitChars_toDigits (by decide) (by decide)

/-- Only digits are written for a number. -/
theorem isDigit_of_mem_digitsOf
    {n : Nat} {c : Char}
    (h : c ∈ digitsOf n) :
    c.isDigit = true :=
  Nat.isDigit_of_mem_toDigits (by decide) (by decide) h

/-- The text of an integer: a minus sign if it is negative, and its digits. -/
def integerText : Int → List Char
  | .ofNat n => digitsOf n
  | .negSucc n => '-' :: digitsOf (n + 1)

/-- The integer of 64 bits with the given value, if there is one. -/
def int64? (i : Int) : Option Int64 :=
  if -0x8000000000000000 ≤ i ∧ i ≤ 0x7FFFFFFFFFFFFFFF then some (Int64.ofInt i) else none

/-- An integer of 64 bits is found exactly for its own value. -/
theorem int64?_eq_some_iff
    {i : Int} {n : Int64} :
    int64? i = some n ↔ n.toInt = i := by
  have hlow := n.le_toInt
  have hhigh := n.toInt_lt
  unfold int64?
  split
  · next h =>
    simp only [Option.some.injEq]
    constructor
    · rintro rfl
      exact Int64.toInt_ofInt_of_le (by omega) (by omega)
    · rintro rfl
      exact Int64.ofInt_toInt n
  · next h =>
    simp only [reduceCtorEq, false_iff]
    rintro rfl
    omega

/-- Whether a text starts with a digit. -/
def startsWithDigit : List Char → Bool
  | c :: _ => c.isDigit
  | [] => false

/-- Takes a sign from the start of a text: whether it is a minus, and what follows. -/
def takeSign : List Char → Bool × List Char
  | '-' :: s => (true, s)
  | '+' :: s => (false, s)
  | s => (false, s)

theorem length_takeSign_le
    (s : List Char) :
    (takeSign s).2.length ≤ s.length := by
  unfold takeSign
  split <;> simp

/-- A decimal number as it is written: the digits before the point, those after it if there is
a point, and the power of ten if one is given. -/
structure Numeral where
  negative : Bool
  whole : List Char
  fraction : List Char
  exponent : Option Int
deriving DecidableEq, Repr

namespace Numeral

/-- A numeral with neither a point nor a power of ten is written for an integer. -/
def isInteger (n : Numeral) : Bool :=
  n.fraction.isEmpty && n.exponent.isNone

/-- The integer that the sign and the digits before the point stand for. -/
def wholeValue (n : Numeral) : Int :=
  if n.negative then - (digitsValue n.whole : Int) else digitsValue n.whole

/-- The numeral of an integer. -/
def ofInt (i : Int) : Numeral where
  negative := i < 0
  whole := digitsOf i.natAbs
  fraction := []
  exponent := none

/-- The text of a numeral.  With `plus` the sign of the power of ten is always written, without
it only a minus sign is. -/
def text (plus : Bool) (n : Numeral) : List Char :=
  (if n.negative then ['-'] else [])
    ++ n.whole
    ++ (if n.fraction.isEmpty then [] else '.' :: n.fraction)
    ++ match n.exponent with
       | none => []
       | some e => 'e' :: ((if plus && 0 ≤ e then ['+'] else []) ++ integerText e)

end Numeral
end TaskTree
