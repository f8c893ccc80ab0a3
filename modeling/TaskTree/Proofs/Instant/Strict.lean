import Mathlib.Data.Option.Basic
import TaskTree.Proofs.Instant.ReadBack

/-!
# The internet date-time format

A text in this format is the date with a year of four digits, a separator, the time of day
and the offset from universal time.  The numbers in it stand at fixed widths, so that each
is written in one way only.  What is free is the separator, the digits of the fraction and
the name of the offset.  The reader accepts these texts and no others.

**Results.**
* `Instant.ofStrict?_eq_some_iff`: the texts that are read, and the instants they give.
* `Instant.ofStrict?_offsetText`: an instant is read back from its text with an offset of zero
  exactly if its year has four digits.
* `Instant.year_of_ofStrict?`: the years that this format can give.
-/

namespace TaskTree

section Digits

/-- Digits of one number that are as many are the same. -/
theorem digits_eq_of_digitsValue_eq
    {digits digits' : List Char}
    (hdigits : ∀ c ∈ digits, c.isDigit = true)
    (hdigits' : ∀ c ∈ digits', c.isDigit = true)
    (hlength : digits.length = digits'.length)
    (h : digitsValue digits = digitsValue digits') :
    digits = digits' := by
  induction digits generalizing digits' with
  | nil => exact (List.length_eq_zero_iff.1 hlength.symm).symm
  | cons c cs ih =>
      cases digits' with
      | nil => cases hlength
      | cons d ds =>
          obtain ⟨hc, hcs⟩ := List.forall_mem_cons.1 hdigits
          obtain ⟨hd, hds⟩ := List.forall_mem_cons.1 hdigits'
          have hlength : cs.length = ds.length := Nat.succ.inj hlength
          have hvalue : ∀ x xs, digitsValue (x :: xs)
              = 10 ^ xs.length * (x.toNat - '0'.toNat) + digitsValue xs := fun x xs => by
            rw [digitsValue, Nat.ofDigitChars_cons, Nat.ofDigitChars_eq_ofDigitChars_zero,
              Nat.mul_zero, Nat.zero_add]
            rfl
          rw [hvalue, hvalue, hlength] at h
          have hlow : digitsValue cs < 10 ^ ds.length := hlength ▸ digitsValue_lt hcs
          have hlow' := digitsValue_lt hds
          -- the first digit is the quotient, and the others are the remainder
          have hfirst := congrArg (· / 10 ^ ds.length) h
          have hrest := congrArg (· % 10 ^ ds.length) h
          simp only [Nat.mul_add_div (Nat.pow_pos (Nat.succ_pos 9)), Nat.div_eq_of_lt hlow,
            Nat.div_eq_of_lt hlow', Nat.add_zero] at hfirst
          simp only [Nat.mul_add_mod, Nat.mod_eq_of_lt hlow, Nat.mod_eq_of_lt hlow'] at hrest
          have hc := Char.isDigit_iff_toNat.1 hc
          have hd := Char.isDigit_iff_toNat.1 hd
          have hzero : '0'.toNat = 48 := rfl
          have hchar : c.toNat = d.toNat := by omega
          rw [Char.toNat_inj.1 hchar, ih hcs hds hlength hrest]

/-- A number is written at a width in one way. -/
theorem padded_digitsValue
    {digits : List Char}
    (h : Digits digits) :
    padded digits.length (digitsValue digits) = digits := by
  have hpos := List.length_pos_iff.2 h.1
  exact digits_eq_of_digitsValue_eq (fun _ => isDigit_of_mem_padded) h.2
    (length_padded hpos (digitsValue_lt h.2)) (digitsValue_padded _ _)

end Digits

section Parts

theorem Date.of?_eq_some_iff
    {year : Int} {month day : Nat} {date : Date} :
    Date.of? year month day = some date ↔
      date.year = year ∧ date.month = month ∧ date.day = day := by
  constructor
  · intro h
    unfold Date.of? at h
    split at h
    · cases h
      exact ⟨rfl, rfl, rfl⟩
    · cases h
  · rintro ⟨rfl, rfl, rfl⟩
    exact Instant.date_of?_self date

theorem Clock.of?_eq_some_iff
    {hour minute second nano : Nat} {clock : Clock} :
    Clock.of? hour minute second nano = some clock ↔
      clock.hour = hour ∧ clock.minute = minute ∧ clock.second = second ∧ clock.nano = nano := by
  constructor
  · intro h
    unfold Clock.of? at h
    split at h
    · cases h
      exact ⟨rfl, rfl, rfl, rfl⟩
    · cases h
  · rintro ⟨rfl, rfl, rfl, rfl⟩
    exact Instant.clock_of?_self clock

theorem Offset.of?_eq_some_iff
    {minutes : Int} {offset : Offset} :
    Offset.of? minutes = some offset ↔ offset.minutes = minutes := by
  constructor
  · intro h
    unfold Offset.of? at h
    split at h
    · cases h
      rfl
    · cases h
  · rintro rfl
    exact dif_pos offset.range

end Parts

namespace Instant

section Format

/-- The nanoseconds that a fraction of a second gives.  Digits past the ninth are dropped. -/
inductive NanosText : Nat → List Char → Prop
  | none : NanosText 0 []
  | some
      {digits : List Char}
      (hdigits : Digits digits) :
      NanosText (digitsValue (digits.take 9) * 10 ^ (9 - (digits.take 9).length)) ('.' :: digits)

/-- The sign of an offset, and whether it is a minus. -/
inductive ZoneSign : Bool → Char → Prop
  | plus : ZoneSign false '+'
  | hyphen : ZoneSign true '-'
  | minus : ZoneSign true '\u2212'

/-- The name of an offset: a letter for universal time, or hours and minutes behind a sign. -/
inductive ZoneText (offset : Offset) : List Char → Prop
  | universal
      {letter : Char}
      (hletter : letter = 'Z' ∨ letter = 'z')
      (hoffset : offset.minutes = 0) :
      ZoneText offset [letter]
  | shifted
      {negative : Bool} {sign : Char} {hours minutes : Nat}
      (hsign : ZoneSign negative sign)
      (hminutes : minutes < 60)
      (hoffset : offset.minutes
        = if negative then -(hours * 60 + minutes : Int) else hours * 60 + minutes) :
      ZoneText offset (sign :: (padded 2 hours ++ ':' :: padded 2 minutes))

/-- The texts in the internet date-time format, and the instants that they give. -/
inductive DateTimeText : Instant → List Char → Prop
  | intro
      {date : Date} {clock : Clock} {offset : Offset}
      {separator : Char} {fraction zone : List Char}
      (hyear : 0 ≤ date.year ∧ date.year ≤ 9999)
      (hseparator : separator = 'T' ∨ separator = 't' ∨ separator = ' ')
      (hfraction : NanosText clock.nano fraction)
      (hzone : ZoneText offset zone) :
      DateTimeText (ofLocal date clock offset)
        (date.text ++ separator :: (padded 2 clock.hour ++ ':' :: (padded 2 clock.minute ++ ':' ::
          (padded 2 clock.second ++ (fraction ++ zone)))))

end Format

section Taking

variable {s rest : List Char}

/-- A number is taken at its width exactly where it is written at that width. -/
theorem takeWidth?_eq_some_iff
    {width n : Nat}
    (hpos : 0 < width) :
    takeWidth? width s = some (n, rest) ↔ n < 10 ^ width ∧ s = padded width n ++ rest := by
  constructor
  · intro h
    unfold takeWidth? takeDigits? at h
    dsimp only at h
    split at h
    · next hleast =>
      obtain ⟨rfl, rfl⟩ := Prod.mk.inj (Option.some.inj h)
      have hdigits : ∀ c ∈ (s.take width).takeWhile Char.isDigit, c.isDigit = true :=
        List.all_eq_true.1 List.all_takeWhile
      have hinitial := List.takeWhile_prefix Char.isDigit (l := s.take width)
      have hlength : ((s.take width).takeWhile Char.isDigit).length = width :=
        Nat.le_antisymm (Nat.le_trans hinitial.length_le (List.length_take_le width s)) hleast
      have hne := List.length_pos_iff.1 (hlength ▸ hpos)
      have hpadded := padded_digitsValue ⟨hne, hdigits⟩
      have hvalue := digitsValue_lt hdigits
      rw [hlength] at hpadded hvalue
      refine ⟨hvalue, ?_⟩
      rw [hpadded]
      exact (List.prefix_iff_eq_append.1 (hinitial.trans (List.take_prefix width s))).symm
    · cases h
  · rintro ⟨hn, rfl⟩
    have hlength := length_padded hpos hn
    have hdigits : ∀ c ∈ padded width n, c.isDigit = true := fun _ => isDigit_of_mem_padded
    have htake : (padded width n ++ rest).take width = padded width n :=
      List.take_left' hlength
    have hend : startsWithDigit [] = false := rfl
    have hall := takeWhile_digits hdigits hend
    rw [List.append_nil] at hall
    simp only [takeWidth?, takeDigits?, htake, hall, hlength, Nat.le_refl, if_true,
      digitsValue_padded]
    rw [List.drop_left' hlength]

/-- A number of two digits is taken exactly where it is written so. -/
theorem takeTwo?_eq_some_iff
    {n : Nat} :
    takeWidth? 2 s = some (n, rest) ↔ n < 100 ∧ s = padded 2 n ++ rest :=
  takeWidth?_eq_some_iff Nat.two_pos

theorem takeChar?_eq_some_iff
    {c : Char} :
    takeChar? c s = some rest ↔ s = c :: rest := by
  cases s with
  | nil => exact ⟨nofun, nofun⟩
  | cons d s =>
      rw [takeChar?]
      split
      · next heq => simp [heq]
      · next hne => simp [hne]

theorem takeSeparator?_eq_some_iff :
    takeSeparator? s = some rest ↔
      ∃ separator, (separator = 'T' ∨ separator = 't' ∨ separator = ' ') ∧
        s = separator :: rest := by
  cases s with
  | nil => exact ⟨nofun, nofun⟩
  | cons d s =>
      rw [takeSeparator?]
      split
      · next hd =>
        constructor
        · rintro ⟨⟩
          exact ⟨d, hd, rfl⟩
        · rintro ⟨separator, -, ⟨⟩⟩
          rfl
      · next hd =>
        constructor
        · nofun
        · rintro ⟨separator, hseparator, ⟨⟩⟩
          exact absurd hseparator hd

/-- What is taken as a fraction is one. -/
theorem nanosText_of_takeFraction?
    {nano : Nat}
    (h : takeFraction? s = some (nano, rest)) :
    ∃ text, NanosText nano text ∧ s = text ++ rest := by
  unfold takeFraction? at h
  split at h
  · next s =>
    dsimp only at h
    split at h
    · cases h
    · next hne =>
      obtain ⟨rfl, rfl⟩ := Prod.mk.inj (Option.some.inj h)
      have hdigits : Digits (s.takeWhile Char.isDigit) :=
        ⟨by simpa using hne, List.all_eq_true.1 List.all_takeWhile⟩
      exact ⟨_, .some hdigits, by rw [List.cons_append, List.takeWhile_append_dropWhile]⟩
  · obtain ⟨rfl, rfl⟩ := Prod.mk.inj (Option.some.inj h)
    exact ⟨[], .none, rfl⟩

/-- A fraction is taken as far as its digits go. -/
theorem takeFraction?_of_nanosText
    {nano : Nat}
    (h : NanosText nano s)
    (hrest : startsWithDigit rest = false)
    (hpoint : ∀ s, rest ≠ '.' :: s) :
    takeFraction? (s ++ rest) = some (nano, rest) := by
  cases h with
  | none =>
      rw [List.nil_append, takeFraction?.eq_def]
      split
      · exact absurd rfl (hpoint _)
      · rfl
  | some hdigits =>
      have hempty := List.isEmpty_eq_false_iff.2 hdigits.1
      simp only [List.cons_append, takeFraction?, takeWhile_digits hdigits.2 hrest,
        dropWhile_digits hdigits.2 hrest, hempty]
      rfl

theorem takeSign?_eq_some_iff
    {negative : Bool} :
    takeSign? s = some (negative, rest) ↔ ∃ sign, ZoneSign negative sign ∧ s = sign :: rest := by
  constructor
  · intro h
    unfold takeSign? at h
    split at h
    · split at h
      · next hplus =>
        cases h
        exact ⟨_, hplus ▸ .plus, rfl⟩
      · split at h
        · next hminus =>
          cases h
          rcases hminus with rfl | rfl
          · exact ⟨_, .hyphen, rfl⟩
          · exact ⟨_, .minus, rfl⟩
        · cases h
    · cases h
  · rintro ⟨sign, hsign, rfl⟩
    cases hsign <;> rfl

/-- An offset is taken exactly where one is named. -/
theorem takeOffset?_eq_some_iff
    {offset : Offset} :
    takeOffset? (takeChar? ':') s = some (offset, []) ↔ ZoneText offset s := by
  constructor
  · intro h
    unfold takeOffset? at h
    split at h
    · obtain ⟨_, hoffset, h⟩ := Option.bind_eq_some_iff.1 h
      cases h
      exact .universal (.inl rfl) (Offset.of?_eq_some_iff.1 hoffset)
    · obtain ⟨_, hoffset, h⟩ := Option.bind_eq_some_iff.1 h
      cases h
      exact .universal (.inr rfl) (Offset.of?_eq_some_iff.1 hoffset)
    · obtain ⟨⟨negative, s⟩, hsign, h⟩ := Option.bind_eq_some_iff.1 h
      obtain ⟨⟨hours, s⟩, hhours, h⟩ := Option.bind_eq_some_iff.1 h
      obtain ⟨s, hcolon, h⟩ := Option.bind_eq_some_iff.1 h
      obtain ⟨⟨minutes, s⟩, hminutes, h⟩ := Option.bind_eq_some_iff.1 h
      obtain ⟨⟨⟩, hguard, h⟩ := Option.bind_eq_some_iff.1 h
      obtain ⟨_, hoffset, h⟩ := Option.bind_eq_some_iff.1 h
      cases h
      obtain ⟨sign, hsigned, rfl⟩ := takeSign?_eq_some_iff.1 hsign
      obtain ⟨-, rfl⟩ := takeTwo?_eq_some_iff.1 hhours
      obtain rfl := takeChar?_eq_some_iff.1 hcolon
      obtain ⟨-, rfl⟩ := takeTwo?_eq_some_iff.1 hminutes
      rw [List.append_nil]
      exact .shifted hsigned ((Option.guard_eq_some' _).1 hguard) (Offset.of?_eq_some_iff.1 hoffset)
  · rintro (⟨hletter, hoffset⟩ | @⟨negative, sign, hours, minutes, hsign, hminutes, hoffset⟩)
    · have hzero : Offset.of? 0 = some offset := Offset.of?_eq_some_iff.2 hoffset
      rcases hletter with rfl | rfl
      · rw [takeOffset?, hzero]
        rfl
      · rw [takeOffset?, hzero]
        rfl
    · have hhours : hours < 24 := by
        have hrange := offset.range
        cases negative <;> simp only [Bool.false_eq_true, if_true, if_false] at hoffset <;> omega
      have hsigned := takeSign?_eq_some_iff.2
        ⟨sign, hsign, (rfl : sign :: (padded 2 hours ++ ':' :: padded 2 minutes) = _)⟩
      have hlast : takeWidth? 2 (padded 2 minutes) = some (minutes, []) :=
        takeTwo?_eq_some_iff.2 ⟨by omega, (List.append_nil _).symm⟩
      unfold takeOffset?
      split
      · next heq =>
        cases heq
        cases hsign
      · next heq =>
        cases heq
        cases hsign
      · refine Option.bind_eq_some_iff.2 ⟨_, hsigned, ?_⟩
        refine Option.bind_eq_some_iff.2 ⟨_, takeTwo?_eq_some_iff.2 ⟨by omega, rfl⟩, ?_⟩
        refine Option.bind_eq_some_iff.2 ⟨_, takeChar?_eq_some_iff.2 rfl, ?_⟩
        refine Option.bind_eq_some_iff.2 ⟨_, hlast, ?_⟩
        refine Option.bind_eq_some_iff.2 ⟨(), (Option.guard_eq_some' _).2 hminutes, ?_⟩
        exact Option.bind_eq_some_iff.2 ⟨_, Offset.of?_eq_some_iff.2 hoffset, rfl⟩

/-- The name of an offset does not go on a fraction of a second. -/
theorem ZoneText.startsWithDigit
    {offset : Offset}
    (h : ZoneText offset s) :
    startsWithDigit s = false := by
  rcases h with ⟨hletter, -⟩ | ⟨hsign, -, -⟩
  · rcases hletter with rfl | rfl <;> rfl
  · cases hsign <;> rfl

theorem ZoneText.ne_point
    {offset : Offset}
    (h : ZoneText offset s) :
    ∀ rest, s ≠ '.' :: rest := by
  rintro rest rfl
  rcases h with ⟨hletter, -⟩ | ⟨hsign, -, -⟩
  · rcases hletter with h | h <;> exact absurd h (by decide)
  · cases hsign

/-- What is read in the internet date-time format is a text in it. -/
theorem dateTimeText_of_ofStrict?
    {t : Instant}
    (h : ofStrict? s = some t) :
    DateTimeText t s := by
  obtain ⟨⟨year, s⟩, hyear, h⟩ := Option.bind_eq_some_iff.1 h
  obtain ⟨s, hhyphen, h⟩ := Option.bind_eq_some_iff.1 h
  obtain ⟨⟨month, s⟩, hmonth, h⟩ := Option.bind_eq_some_iff.1 h
  obtain ⟨s, hhyphen', h⟩ := Option.bind_eq_some_iff.1 h
  obtain ⟨⟨day, s⟩, hday, h⟩ := Option.bind_eq_some_iff.1 h
  obtain ⟨s, hseparator, h⟩ := Option.bind_eq_some_iff.1 h
  obtain ⟨⟨hour, s⟩, hhour, h⟩ := Option.bind_eq_some_iff.1 h
  obtain ⟨s, hcolon, h⟩ := Option.bind_eq_some_iff.1 h
  obtain ⟨⟨minute, s⟩, hminute, h⟩ := Option.bind_eq_some_iff.1 h
  obtain ⟨s, hcolon', h⟩ := Option.bind_eq_some_iff.1 h
  obtain ⟨⟨second, s⟩, hsecond, h⟩ := Option.bind_eq_some_iff.1 h
  obtain ⟨⟨nano, s⟩, hfraction, h⟩ := Option.bind_eq_some_iff.1 h
  obtain ⟨⟨offset, s⟩, hzone, h⟩ := Option.bind_eq_some_iff.1 h
  obtain ⟨⟨⟩, hend, h⟩ := Option.bind_eq_some_iff.1 h
  obtain ⟨date, hdate, h⟩ := Option.bind_eq_some_iff.1 h
  obtain ⟨clock, hclock, h⟩ := Option.bind_eq_some_iff.1 h
  obtain rfl := Option.some.inj h
  -- each number is in its place, and what stands between them is fixed
  obtain ⟨hbound, rfl⟩ := (takeWidth?_eq_some_iff (Nat.succ_pos 3)).1 hyear
  obtain rfl := takeChar?_eq_some_iff.1 hhyphen
  obtain ⟨-, rfl⟩ := takeTwo?_eq_some_iff.1 hmonth
  obtain rfl := takeChar?_eq_some_iff.1 hhyphen'
  obtain ⟨-, rfl⟩ := takeTwo?_eq_some_iff.1 hday
  obtain ⟨separator, hmark, rfl⟩ := takeSeparator?_eq_some_iff.1 hseparator
  obtain ⟨-, rfl⟩ := takeTwo?_eq_some_iff.1 hhour
  obtain rfl := takeChar?_eq_some_iff.1 hcolon
  obtain ⟨-, rfl⟩ := takeTwo?_eq_some_iff.1 hminute
  obtain rfl := takeChar?_eq_some_iff.1 hcolon'
  obtain ⟨-, rfl⟩ := takeTwo?_eq_some_iff.1 hsecond
  obtain ⟨fraction, hnanos, rfl⟩ := nanosText_of_takeFraction? hfraction
  obtain rfl := List.isEmpty_iff.1 ((Option.guard_eq_some' _).1 hend)
  have hzone := takeOffset?_eq_some_iff.1 hzone
  obtain ⟨hsame, rfl, rfl⟩ := Date.of?_eq_some_iff.1 hdate
  obtain ⟨rfl, rfl, rfl, rfl⟩ := Clock.of?_eq_some_iff.1 hclock
  have hplain : 0 ≤ date.year ∧ date.year ≤ 9999 := by omega
  have htext := DateTimeText.intro hplain hmark hnanos hzone
  rw [Date.text, yearText, if_pos hplain, hsame, Int.toNat_natCast] at htext
  simpa only [List.append_assoc, List.cons_append] using htext

/-- A text in the internet date-time format is read as the instant that it gives. -/
theorem DateTimeText.ofStrict?_eq
    {t : Instant}
    (h : DateTimeText t s) :
    ofStrict? s = some t := by
  obtain @⟨date, clock, offset, separator, fraction, zone, hyear, hseparator, hfraction, hzone⟩ := h
  have hmonth := date.month_mem
  have hday := day_lt date
  have hhour := clock.hour_lt
  have hminute := clock.minute_lt
  have hsecond := clock.second_le
  have hdate : Date.of? date.year.toNat date.month date.day = some date :=
    Date.of?_eq_some_iff.2 ⟨(Int.toNat_of_nonneg hyear.1).symm, rfl, rfl⟩
  have hbound : date.year.toNat < 10 ^ 4 := by omega
  simp only [Date.text, yearText, if_pos hyear, List.append_assoc, List.cons_append]
  refine Option.bind_eq_some_iff.2
    ⟨_, (takeWidth?_eq_some_iff (Nat.succ_pos 3)).2 ⟨hbound, rfl⟩, ?_⟩
  refine Option.bind_eq_some_iff.2 ⟨_, takeChar?_eq_some_iff.2 rfl, ?_⟩
  refine Option.bind_eq_some_iff.2 ⟨_, takeTwo?_eq_some_iff.2 ⟨by omega, rfl⟩, ?_⟩
  refine Option.bind_eq_some_iff.2 ⟨_, takeChar?_eq_some_iff.2 rfl, ?_⟩
  refine Option.bind_eq_some_iff.2 ⟨_, takeTwo?_eq_some_iff.2 ⟨hday, rfl⟩, ?_⟩
  refine Option.bind_eq_some_iff.2
    ⟨_, takeSeparator?_eq_some_iff.2 ⟨separator, hseparator, rfl⟩, ?_⟩
  refine Option.bind_eq_some_iff.2 ⟨_, takeTwo?_eq_some_iff.2 ⟨by omega, rfl⟩, ?_⟩
  refine Option.bind_eq_some_iff.2 ⟨_, takeChar?_eq_some_iff.2 rfl, ?_⟩
  refine Option.bind_eq_some_iff.2 ⟨_, takeTwo?_eq_some_iff.2 ⟨by omega, rfl⟩, ?_⟩
  refine Option.bind_eq_some_iff.2 ⟨_, takeChar?_eq_some_iff.2 rfl, ?_⟩
  refine Option.bind_eq_some_iff.2 ⟨_, takeTwo?_eq_some_iff.2 ⟨by omega, rfl⟩, ?_⟩
  refine Option.bind_eq_some_iff.2
    ⟨_, takeFraction?_of_nanosText hfraction hzone.startsWithDigit hzone.ne_point, ?_⟩
  refine Option.bind_eq_some_iff.2 ⟨_, takeOffset?_eq_some_iff.2 hzone, ?_⟩
  refine Option.bind_eq_some_iff.2 ⟨(), rfl, ?_⟩
  refine Option.bind_eq_some_iff.2 ⟨_, hdate, ?_⟩
  exact Option.bind_eq_some_iff.2 ⟨_, clock_of?_self clock, rfl⟩

/-- The reader accepts the texts in the internet date-time format and no others. -/
theorem ofStrict?_eq_some_iff
    {t : Instant} :
    ofStrict? s = some t ↔ DateTimeText t s :=
  ⟨dateTimeText_of_ofStrict?, DateTimeText.ofStrict?_eq⟩

end Taking

section Years

/-- An instant whose year is written with four digits and no sign. -/
def HasPlainYear (t : Instant) : Prop :=
  0 ≤ t.date.year ∧ t.date.year ≤ 9999

instance (t : Instant) : Decidable t.HasPlainYear :=
  inferInstanceAs (Decidable (_ ∧ _))

/-- A year with a sign is no number of four digits. -/
theorem takeWidth?_yearText_of_signed
    {year : Int}
    (h : ¬ (0 ≤ year ∧ year ≤ 9999))
    (rest : List Char) :
    takeWidth? 4 (yearText year ++ rest) = none := by
  rw [yearText, if_neg h]
  split <;> simp [takeWidth?, takeDigits?]

/-- The fraction of a second is written as one. -/
theorem nanosText_fractionText
    (clock : Clock) :
    NanosText clock.nano (fractionText clock.nano) := by
  have hend : startsWithDigit [] = false := rfl
  have htake := takeFraction?_fractionText clock.nano_lt hend nofun
  obtain ⟨text, htext, heq⟩ := nanosText_of_takeFraction? htake
  rw [List.append_cancel_right heq]
  exact htext

/-- An instant with a plain year is written in the internet date-time format. -/
theorem dateTimeText_offsetText
    {t : Instant}
    (h : t.HasPlainYear) :
    DateTimeText t t.offsetText.toList := by
  rcases t with ⟨date, clock⟩
  have hzone : ZoneText ⟨0, by decide⟩ ['+', '0', '0', ':', '0', '0'] :=
    @ZoneText.shifted _ false '+' 0 0 .plus (by decide) rfl
  have htext := DateTimeText.intro h (.inl rfl) (nanosText_fractionText clock) hzone
  rw [ofLocal_zero date clock _ rfl] at htext
  simpa only [offsetText, String.toList_ofList, Instant.text, Clock.text, List.append_assoc,
    List.cons_append] using htext

/-- The text of an instant in which the zone is an offset of zero is in the internet date-time
format exactly if its year has four digits, and then it gives the instant. -/
theorem ofStrict?_offsetText
    (t : Instant) :
    ofStrict? t.offsetText.toList = if t.HasPlainYear then some t else none := by
  split
  · next hplain => exact ofStrict?_eq_some_iff.2 (dateTimeText_offsetText hplain)
  · next hsigned =>
    rcases t with ⟨date, clock⟩
    simp only [offsetText, String.toList_ofList, Instant.text, Date.text, List.append_assoc]
    refine Option.bind_eq_none_iff.2 fun _ htaken => ?_
    rw [takeWidth?_yearText_of_signed hsigned] at htaken
    cases htaken

theorem year_previous
    (date : Date) :
    date.previous.year = date.year ∨ date.previous.year = date.year - 1 := by
  unfold Date.previous
  repeat' split
  · exact .inl rfl
  · exact .inl rfl
  · exact .inr rfl

theorem year_next
    (date : Date) :
    date.next.year = date.year ∨ date.next.year = date.year + 1 := by
  unfold Date.next
  repeat' split
  · exact .inl rfl
  · exact .inl rfl
  · exact .inr rfl

/-- Moving a local time to universal time changes the year by at most one. -/
theorem year_ofLocal
    (date : Date) (clock : Clock) (offset : Offset) :
    date.year - 1 ≤ (ofLocal date clock offset).date.year ∧
      (ofLocal date clock offset).date.year ≤ date.year + 1 := by
  have hprevious := year_previous date
  have hnext := year_next date
  simp only [ofLocal]
  split
  · omega
  · split <;> omega

/-- The internet date-time format gives no instant outside the years -1 to 10000. -/
theorem year_of_ofStrict?
    {s : List Char} {t : Instant}
    (h : ofStrict? s = some t) :
    -1 ≤ t.date.year ∧ t.date.year ≤ 10000 := by
  obtain @⟨date, clock, offset, -, -, -, hyear, -, -, -⟩ := ofStrict?_eq_some_iff.1 h
  have hlocal := year_ofLocal date clock offset
  omega

end Years

end Instant

end TaskTree
