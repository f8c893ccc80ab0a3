import Mathlib.Algebra.Ring.Nat
import TaskTree.Instant.Parse
import TaskTree.Instant.Written
import TaskTree.Proofs.Decimal.Numeral

/-!
# Instants read back

Every number in the text of an instant has as many digits as its place asks for
and is followed by something else, so it is found again.  With universal time as
its zone the instant is read back, as long as its year can be stored.

**Results.**
* `Instant.takeYear?_yearText`, `Instant.takeFraction?_fractionText`: parts of the text.
* `Instant.ofRelaxed?_text`: an instant is read back from its text.
-/

namespace TaskTree

section Padded

variable {width n : Nat}

theorem isDigit_of_mem_padded
    {c : Char}
    (h : c ∈ padded width n) :
    c.isDigit = true :=
  (List.mem_append.1 h).elim Numeral.isDigit_of_mem_replicate isDigit_of_mem_digitsOf

theorem padded_ne_nil
    (width n : Nat) :
    padded width n ≠ [] := by
  simp [padded, digitsOf_ne_nil]

/-- Zeros in front do not change a number. -/
theorem digitsValue_padded
    (width n : Nat) :
    digitsValue (padded width n) = n := by
  have h := digitsValue_digitsOf n
  rw [digitsValue] at h
  rw [padded, digitsValue, Nat.ofDigitChars_append, Nat.ofDigitChars_replicate_zero, Nat.mul_zero]
  exact h

theorem length_padded
    (hwidth : 0 < width)
    (hn : n < 10 ^ width) :
    (padded width n).length = width := by
  have hlength : (digitsOf n).length ≤ width :=
    (Nat.length_toDigits_le_iff (by decide) hwidth).2 hn
  simp only [padded, List.length_append, List.length_replicate]
  omega

theorem startsWithDigit_padded
    (width n : Nat) (rest : List Char) :
    startsWithDigit (padded width n ++ rest) = true :=
  startsWithDigit_append (padded_ne_nil width n) fun _ => isDigit_of_mem_padded

end Padded

namespace Instant

section Parts

variable {rest : List Char}

/-- A digit is no white space. -/
theorem isBlank_of_isDigit
    {c : Char}
    (h : c.isDigit = true) :
    Text.isBlank c = false := by
  simp only [Char.isDigit, Bool.and_eq_true, decide_eq_true_eq, ge_iff_le,
    UInt32.le_iff_toNat_le] at h
  have hlow : 48 ≤ c.toNat := h.1
  have hhigh : c.toNat ≤ 57 := h.2
  simp [Text.isBlank]
  omega

theorem skipBlank_of_startsWithDigit
    {s : List Char}
    (h : startsWithDigit s = true) :
    Text.skipBlank s = s := by
  cases s with
  | nil => rfl
  | cons c s => simp [Text.skipBlank, isBlank_of_isDigit h]

/-- Digits are taken as one number if their number is admitted and no digit follows. -/
theorem takeDigits?_append
    {least most : Nat} {digits : List Char}
    (hdigits : ∀ c ∈ digits, c.isDigit = true)
    (hleast : least ≤ digits.length)
    (hmost : digits.length ≤ most)
    (hrest : startsWithDigit rest = false) :
    takeDigits? least most (digits ++ rest) = some (digitsValue digits, rest) := by
  have hstart : startsWithDigit (rest.take (most - digits.length)) = false := by
    cases rest with
    | nil => simp [startsWithDigit]
    | cons c rest =>
        cases most - digits.length with
        | zero => rfl
        | succ k => exact hrest
  have htake : (digits ++ rest).take most = digits ++ rest.take (most - digits.length) := by
    rw [List.take_append, List.take_of_length_le hmost]
  rw [takeDigits?, htake, takeWhile_digits hdigits hstart, if_pos hleast, List.drop_left]

/-- A number of two digits is taken. -/
theorem takeNumber?_padded
    {n : Nat}
    (hn : n < 100)
    (hrest : startsWithDigit rest = false) :
    takeNumber? 2 (padded 2 n ++ rest) = some (n, rest) := by
  have hlength : (padded 2 n).length = 2 := length_padded (by decide) hn
  rw [takeNumber?, skipBlank_of_startsWithDigit (startsWithDigit_padded 2 n rest),
    takeDigits?_append (fun _ => isDigit_of_mem_padded) (by omega) (by omega) hrest,
    digitsValue_padded]

/-- A year is taken with its sign. -/
theorem takeYear?_yearText
    (year : Int)
    (hrest : startsWithDigit rest = false) :
    takeYear? (yearText year ++ rest) = some (year, rest) := by
  have hdigits : ∀ n, ∀ c ∈ padded 4 n, c.isDigit = true := fun _ _ => isDigit_of_mem_padded
  have hpos : ∀ n, 0 < (padded 4 n).length := fun n => List.length_pos_iff.2 (padded_ne_nil 4 n)
  unfold yearText
  split
  · next h =>
    have hlength : (padded 4 year.toNat).length = 4 := length_padded (by decide) (by omega)
    have hstart := startsWithDigit_padded 4 year.toNat rest
    rw [takeYear?, skipBlank_of_startsWithDigit hstart]
    split
    · next heq => exact absurd (show Char.isDigit '-' = true by rwa [heq] at hstart) (by decide)
    · next heq => exact absurd (show Char.isDigit '+' = true by rwa [heq] at hstart) (by decide)
    · rw [takeDigits?_append (hdigits _) (by omega) (by omega) hrest, digitsValue_padded]
      exact congrArg (fun y => some (y, rest)) (Int.toNat_of_nonneg h.1)
  · next h =>
    have htake : takeDigits? 1 (padded 4 year.natAbs ++ rest).length (padded 4 year.natAbs ++ rest)
        = some (year.natAbs, rest) := by
      rw [takeDigits?_append (hdigits _) (hpos _) (by simp) hrest, digitsValue_padded]
    split
    · next hneg =>
      have hskip : Text.skipBlank ('-' :: (padded 4 year.natAbs ++ rest))
          = '-' :: (padded 4 year.natAbs ++ rest) := rfl
      rw [List.cons_append, takeYear?, hskip]
      simp only [htake, Option.map_some, Option.some.injEq, Prod.mk.injEq, and_true]
      omega
    · have hskip : Text.skipBlank ('+' :: (padded 4 year.natAbs ++ rest))
          = '+' :: (padded 4 year.natAbs ++ rest) := rfl
      rw [List.cons_append, takeYear?, hskip]
      simp only [htake, Option.map_some, Option.some.injEq, Prod.mk.injEq, and_true]
      omega

theorem takeFraction?_padded
    {width n : Nat}
    (hpos : 0 < width)
    (hwidth : width ≤ 9)
    (hn : n < 10 ^ width)
    (hrest : startsWithDigit rest = false) :
    takeFraction? ('.' :: (padded width n ++ rest)) = some (n * 10 ^ (9 - width), rest) := by
  have hlength := length_padded hpos hn
  have hdigits : ∀ c ∈ padded width n, c.isDigit = true := fun _ => isDigit_of_mem_padded
  have htake : (padded width n).take 9 = padded width n :=
    List.take_of_length_le (by omega)
  have hempty : (padded width n).isEmpty = false := by
    simpa using padded_ne_nil width n
  simp only [takeFraction?, takeWhile_digits hdigits hrest, dropWhile_digits hdigits hrest,
    hempty, htake, digitsValue_padded, hlength]
  rfl

theorem startsWithDigit_fractionText
    {nano : Nat}
    (hrest : startsWithDigit rest = false) :
    startsWithDigit (fractionText nano ++ rest) = false := by
  unfold fractionText
  split
  · exact hrest
  · repeat' split
    all_goals rfl

/-- Three, six or nine digits after a point give the nanoseconds. -/
theorem takeFraction?_fractionText
    {nano : Nat}
    (hnano : nano < 1000000000)
    (hrest : startsWithDigit rest = false)
    (hpoint : ∀ s, rest ≠ '.' :: s) :
    takeFraction? (fractionText nano ++ rest) = some (nano, rest) := by
  unfold fractionText
  split
  · next hzero =>
    rw [List.nil_append, takeFraction?.eq_def]
    split
    · next heq => exact absurd rfl (hpoint _)
    · rw [hzero]
  · split
    · next hmilli =>
      rw [List.cons_append, takeFraction?_padded (by decide) (by decide) (by omega) hrest]
      simp only [Option.some.injEq, Prod.mk.injEq, and_true]
      omega
    · split
      · next hmicro =>
        rw [List.cons_append, takeFraction?_padded (by decide) (by decide) (by omega) hrest]
        simp only [Option.some.injEq, Prod.mk.injEq, and_true]
        omega
      · rw [List.cons_append, takeFraction?_padded (by decide) (by decide) (by omega) hrest]
        simp

end Parts

theorem daysInMonth_le
    (year : Int) (month : Nat) :
    daysInMonth year month ≤ 31 := by
  unfold daysInMonth
  repeat' split
  all_goals decide

/-- A date and a time of day at an offset of zero are an instant as they stand. -/
theorem ofLocal_zero
    (date : Date) (clock : Clock) (offset : Offset)
    (h : offset.minutes = 0) :
    ofLocal date clock offset = ⟨date, clock⟩ := by
  rcases clock with ⟨hour, minute, second, nano, hhour, hminute, hsecond, hnano⟩
  simp only [ofLocal, h, Int.sub_zero, Instant.mk.injEq, Clock.mk.injEq, and_true]
  refine ⟨?_, ?_, ?_⟩
  · rw [if_neg (by omega), if_pos (by omega)]
  · omega
  · omega

/-- The parts of a date are those of a day of the calendar. -/
theorem date_of?_self
    (date : Date) :
    Date.of? date.year date.month date.day = some date :=
  dif_pos ⟨date.month_mem, date.day_mem⟩

/-- The parts of a time of day are in range. -/
theorem clock_of?_self
    (clock : Clock) :
    Clock.of? clock.hour clock.minute clock.second clock.nano = some clock :=
  dif_pos ⟨⟨clock.hour_lt, clock.minute_lt⟩, clock.second_le, clock.nano_lt⟩

theorem day_lt
    (date : Date) :
    date.day < 100 := by
  have hmem := date.day_mem
  have hmonth := daysInMonth_le date.year date.month
  omega

/-- An instant lies in the years that can be stored. -/
def Stored (t : Instant) : Prop :=
  inStoredYears t.date = true

/-- An instant whose year can be stored is read back from its text in universal time. -/
theorem ofRelaxed?_text
    {t : Instant}
    (h : t.Stored) :
    ofRelaxed? (t.text ['Z']) = some t := by
  rcases t with ⟨date, clock⟩
  have hday := day_lt date
  have hzone : takeZone? (Text.skipBlank ['Z']) = some (⟨0, by decide⟩, []) := by
    rfl
  have hmonth := date.month_mem
  have hhour := clock.hour_lt
  have hminute := clock.minute_lt
  have hsecond := clock.second_le
  have hnano := clock.nano_lt
  have hlocal := ofLocal_zero date clock ⟨0, by decide⟩ rfl
  have hyears : (inStoredYears date && inStoredYears (ofLocal date clock ⟨0, by decide⟩).date)
      = true := by
    rw [hlocal, Bool.and_self]
    exact h
  have hhyphen : ∀ s, takeChar? '-' (Text.skipBlank ('-' :: s)) = some s := fun _ => rfl
  have hcolon : ∀ s, takeChar? ':' (Text.skipBlank (':' :: s)) = some s := fun _ => rfl
  have hseparator : ∀ s, takeSeparator? ('T' :: s) = some s := fun _ => rfl
  simp only [Instant.text, Date.text, Clock.text, List.append_assoc, List.cons_append]
  refine Option.bind_eq_some_iff.2 ⟨_, takeYear?_yearText _ rfl, ?_⟩
  refine Option.bind_eq_some_iff.2 ⟨_, hhyphen _, ?_⟩
  refine Option.bind_eq_some_iff.2 ⟨_, takeNumber?_padded (by omega) rfl, ?_⟩
  refine Option.bind_eq_some_iff.2 ⟨_, hhyphen _, ?_⟩
  refine Option.bind_eq_some_iff.2 ⟨_, takeNumber?_padded hday rfl, ?_⟩
  refine Option.bind_eq_some_iff.2 ⟨_, hseparator _, ?_⟩
  refine Option.bind_eq_some_iff.2 ⟨_, takeNumber?_padded (by omega) rfl, ?_⟩
  refine Option.bind_eq_some_iff.2 ⟨_, hcolon _, ?_⟩
  refine Option.bind_eq_some_iff.2 ⟨_, takeNumber?_padded (by omega) rfl, ?_⟩
  refine Option.bind_eq_some_iff.2 ⟨_, hcolon _, ?_⟩
  refine Option.bind_eq_some_iff.2
    ⟨_, takeNumber?_padded (by omega) (startsWithDigit_fractionText rfl), ?_⟩
  refine Option.bind_eq_some_iff.2 ⟨_, takeFraction?_fractionText hnano rfl (by simp), ?_⟩
  refine Option.bind_eq_some_iff.2 ⟨_, hzone, ?_⟩
  refine Option.bind_eq_some_iff.2 ⟨(), rfl, ?_⟩
  refine Option.bind_eq_some_iff.2 ⟨_, date_of?_self date, ?_⟩
  refine Option.bind_eq_some_iff.2 ⟨_, clock_of?_self clock, ?_⟩
  exact Option.bind_eq_some_iff.2 ⟨(), if_pos hyears, congrArg some hlocal⟩

end Instant

end TaskTree
