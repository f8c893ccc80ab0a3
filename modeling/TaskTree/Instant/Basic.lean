/-!
# Instants

An instant is a date of the Gregorian calendar, continued without end in both
directions, and a time of day, both in universal time.  A second 60 is a leap
second.  Moving a local time to universal time changes the date by at most one
day, so no count of days is needed.
-/

namespace TaskTree

/-- Whether a year has 366 days. -/
def isLeapYear (year : Int) : Bool :=
  year % 4 = 0 && (year % 100 ≠ 0 || year % 400 = 0)

/-- The number of days of a month. -/
def daysInMonth (year : Int) (month : Nat) : Nat :=
  if month = 2 then if isLeapYear year then 29 else 28
  else if month = 4 ∨ month = 6 ∨ month = 9 ∨ month = 11 then 30
  else 31

theorem daysInMonth_pos
    (year : Int) (month : Nat) :
    1 ≤ daysInMonth year month := by
  unfold daysInMonth
  repeat' split
  all_goals decide

/-- A day of the calendar. -/
structure Date where
  year : Int
  month : Nat
  day : Nat
  month_mem : 1 ≤ month ∧ month ≤ 12
  day_mem : 1 ≤ day ∧ day ≤ daysInMonth year month
deriving DecidableEq, Repr

namespace Date

/-- The day of the given year, month and number, if there is one. -/
def of? (year : Int) (month day : Nat) : Option Date :=
  if h : (1 ≤ month ∧ month ≤ 12) ∧ (1 ≤ day ∧ day ≤ daysInMonth year month) then
    some ⟨year, month, day, h.1, h.2⟩
  else none

/-- The first day of a month. -/
def firstOf (year : Int) (month : Nat) (h : 1 ≤ month ∧ month ≤ 12) : Date :=
  ⟨year, month, 1, h, ⟨Nat.le_refl 1, daysInMonth_pos year month⟩⟩

/-- The last day of a month. -/
def lastOf (year : Int) (month : Nat) (h : 1 ≤ month ∧ month ≤ 12) : Date :=
  ⟨year, month, daysInMonth year month, h, ⟨daysInMonth_pos year month, Nat.le_refl _⟩⟩

/-- The day after. -/
def next (date : Date) : Date :=
  if hday : date.day < daysInMonth date.year date.month then
    ⟨date.year, date.month, date.day + 1, date.month_mem, by omega⟩
  else if hmonth : date.month < 12 then
    firstOf date.year (date.month + 1) (by omega)
  else
    firstOf (date.year + 1) 1 (by decide)

/-- The day before. -/
def previous (date : Date) : Date :=
  if hday : 1 < date.day then
    ⟨date.year, date.month, date.day - 1, date.month_mem, by have := date.day_mem; omega⟩
  else if hmonth : 1 < date.month then
    lastOf date.year (date.month - 1) (by have := date.month_mem; omega)
  else
    lastOf (date.year - 1) 12 (by decide)

end Date

/-- A time of day, to the nanosecond. -/
structure Clock where
  hour : Nat
  minute : Nat
  second : Nat
  nano : Nat
  hour_lt : hour < 24
  minute_lt : minute < 60
  second_le : second ≤ 60
  nano_lt : nano < 1000000000
deriving DecidableEq, Repr

/-- The time of day with the given parts, if they are in range. -/
def Clock.of? (hour minute second nano : Nat) : Option Clock :=
  if h : (hour < 24 ∧ minute < 60) ∧ (second ≤ 60 ∧ nano < 1000000000) then
    some ⟨hour, minute, second, nano, h.1.1, h.1.2, h.2.1, h.2.2⟩
  else none

/-- A point in time. -/
structure Instant where
  date : Date
  clock : Clock
deriving DecidableEq, Repr

/-- An offset from universal time in minutes, less than a day. -/
structure Offset where
  minutes : Int
  range : -1440 < minutes ∧ minutes < 1440
deriving DecidableEq, Repr

/-- The offset of the given number of minutes, if it is less than a day. -/
def Offset.of? (minutes : Int) : Option Offset :=
  if h : -1440 < minutes ∧ minutes < 1440 then some ⟨minutes, h⟩ else none

/-- The instant of a local date and time at an offset.  Seconds are the same at every offset. -/
def Instant.ofLocal (date : Date) (clock : Clock) (offset : Offset) : Instant :=
  let minutes : Int := clock.hour * 60 + clock.minute - offset.minutes
  have hrange : -1440 < minutes ∧ minutes < 2880 := by
    have := clock.hour_lt
    have := clock.minute_lt
    have := offset.range
    omega
  let day : Date :=
    if minutes < 0 then date.previous
    else if minutes < 1440 then date
    else date.next
  let within : Nat := (minutes % 1440).toNat
  { date := day
    clock :=
      { clock with
        hour := within / 60
        minute := within % 60
        hour_lt := by omega
        minute_lt := by omega } }

end TaskTree
