import TaskTree.Decimal.Numeral
import TaskTree.Instant.Basic

/-!
# Instants written as text

An instant is written as date and time joined by `T`, followed by the zone.  A
year outside 0 to 9999 carries its sign.  A fraction of a second has three, six
or nine digits, the fewest that are exact, and is left out if it is zero.
-/

namespace TaskTree

/-- The digits of a number, filled up with zeros to a width. -/
def padded (width n : Nat) : List Char :=
  let digits := digitsOf n
  List.replicate (width - digits.length) '0' ++ digits

/-- The text of a year. -/
def yearText (year : Int) : List Char :=
  if 0 ≤ year ∧ year ≤ 9999 then padded 4 year.toNat
  else (if year < 0 then '-' else '+') :: padded 4 year.natAbs

/-- The text of a fraction of a second. -/
def fractionText (nano : Nat) : List Char :=
  if nano = 0 then []
  else if nano % 1000000 = 0 then '.' :: padded 3 (nano / 1000000)
  else if nano % 1000 = 0 then '.' :: padded 6 (nano / 1000)
  else '.' :: padded 9 nano

/-- The text of a date. -/
def Date.text (date : Date) : List Char :=
  yearText date.year ++ '-' :: padded 2 date.month ++ '-' :: padded 2 date.day

/-- The text of a time of day. -/
def Clock.text (clock : Clock) : List Char :=
  padded 2 clock.hour ++ ':' :: padded 2 clock.minute ++ ':' :: padded 2 clock.second
    ++ fractionText clock.nano

/-- The text of an instant, with the given name for universal time. -/
def Instant.text (zone : List Char) (instant : Instant) : List Char :=
  instant.date.text ++ 'T' :: instant.clock.text ++ zone

/-- The text of an instant in which the zone is an offset of zero. -/
def Instant.offsetText (instant : Instant) : String :=
  String.ofList (instant.text ['+', '0', '0', ':', '0', '0'])

/-- The text of an instant in which the zone is a `Z`. -/
def Instant.zuluText (instant : Instant) : String :=
  String.ofList (instant.text ['Z'])

end TaskTree
