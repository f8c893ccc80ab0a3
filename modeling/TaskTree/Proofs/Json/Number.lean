import TaskTree.Json.Token
import TaskTree.Proofs.Decimal.Interval
import TaskTree.Proofs.Decimal.Numeral

/-!
# JSON numbers read back

In a JSON text the digits before the point do not start with a zero, unless they
are a single zero.  The digits that are written for integers and for
floating-point numbers are of this kind, and a numeral of this kind is read back
from its text, as long as what follows does not continue the number.

**Results.**
* `Numeral.takeNumber_text`: a numeral is read back from its text.
* `Numeral.standard_ofInt`, `Numeral.standard_ofFloat`: which numerals are written.
-/

namespace TaskTree

namespace JsonToken

/-- Whether a character behind a number would belong to it. -/
def continuesNumber (c : Char) : Bool :=
  c.isDigit || c == '.' || c == 'e' || c == 'E'

/-- A number may stand before this text. -/
def EndsNumber (rest : List Char) : Prop :=
  ∀ c ∈ rest.head?, continuesNumber c = false

theorem endsNumber_nil :
    EndsNumber [] := by
  simp [EndsNumber]

theorem endsNumber_cons
    {c : Char} {rest : List Char}
    (h : continuesNumber c = false) :
    EndsNumber (c :: rest) := by
  simpa [EndsNumber] using h

theorem EndsNumber.startsWithDigit
    {rest : List Char}
    (h : EndsNumber rest) :
    startsWithDigit rest = false := by
  cases rest with
  | nil => rfl
  | cons c rest =>
      have hc : continuesNumber c = false := h c rfl
      simp only [continuesNumber, Bool.or_eq_false_iff] at hc
      exact hc.1.1.1

theorem takeDigits_append
    {digits rest : List Char}
    (hne : digits ≠ [])
    (hdigits : ∀ c ∈ digits, c.isDigit = true)
    (hrest : startsWithDigit rest = false)
    (atEnd : JsonFault) :
    takeDigits atEnd (digits ++ rest) = .ok (digits, rest) := by
  have htake := takeWhile_digits hdigits hrest
  have hdrop := dropWhile_digits hdigits hrest
  obtain ⟨c, digits, rfl⟩ := List.exists_cons_of_ne_nil hne
  have hc : c.isDigit = true := hdigits c List.mem_cons_self
  rw [List.cons_append] at htake hdrop ⊢
  rw [takeDigits, if_pos hc, htake, hdrop]

/-- A text that starts with a digit has no minus sign. -/
theorem takeMinus_of_startsWithDigit
    {s : List Char}
    (h : startsWithDigit s = true) :
    takeMinus s = (false, s) := by
  unfold takeMinus
  split
  · exact absurd (show Char.isDigit '-' = true from h) (by decide)
  · rfl

/-- A sign or a digit begins a number. -/
theorem next_of_numeric
    {c : Char}
    (h : c = '-' ∨ c.isDigit = true)
    (s : List Char) :
    next c s = ofNumber (c :: s) := by
  unfold next
  split
  case h_11 => exact if_pos h
  all_goals exact absurd h (by decide)

end JsonToken

/-- The digits of a number other than zero do not start with a zero. -/
theorem head?_digitsOf
    {n : Nat}
    (h : 0 < n) :
    (digitsOf n).head? ≠ some '0' := by
  induction n using Nat.strong_induction_on with
  | _ n ih =>
      by_cases hsmall : n < 10
      · have hall : ∀ m : Fin 10, 0 < m.val → m.val.digitChar ≠ '0' := by decide
        rw [digitsOf, Nat.toDigits_of_lt_base hsmall]
        simpa using hall ⟨n, hsmall⟩ h
      · have hhead := ih (n / 10) (by omega) (by omega)
        have hne := digitsOf_ne_nil (n / 10)
        rw [digitsOf] at hhead hne
        rw [digitsOf, Nat.toDigits_of_base_le (by decide) (by omega),
          List.head?_append_of_ne_nil _ hne]
        exact hhead

/-- Digits that are a single zero or do not start with one. -/
def NoLeadingZero (digits : List Char) : Prop :=
  digits = ['0'] ∨ digits.head? ≠ some '0'

theorem noLeadingZero_digitsOf
    (n : Nat) :
    NoLeadingZero (digitsOf n) := by
  rcases Nat.eq_zero_or_pos n with rfl | hpos
  · exact .inl rfl
  · exact .inr (head?_digitsOf hpos)

namespace Numeral

/-- A numeral as JSON admits it. -/
structure Standard (n : Numeral) : Prop extends Proper n where
  leading : NoLeadingZero n.whole

/-- The text of a power of ten with its sign. -/
def powerText (n : Numeral) : List Char :=
  match n.exponent with
  | none => []
  | some e => 'e' :: ((if 0 ≤ e then ['+'] else []) ++ integerText e)

theorem text_json_eq
    (n : Numeral) :
    n.text Json.numbers.plus
      = (if n.negative then ['-'] else []) ++ (n.whole ++ (n.fractionText ++ n.powerText)) := by
  rw [text, fractionText, powerText]
  cases n.exponent <;> simp [Json.numbers]

section Text

open JsonToken

variable {n : Numeral} {rest : List Char}

theorem startsWithDigit_powerText
    (hrest : EndsNumber rest) :
    startsWithDigit (n.powerText ++ rest) = false := by
  unfold powerText
  split
  · exact hrest.startsWithDigit
  · rfl

theorem startsWithDigit_fractionText_append
    (hrest : EndsNumber rest) :
    startsWithDigit (n.fractionText ++ (n.powerText ++ rest)) = false := by
  unfold fractionText
  split
  · exact startsWithDigit_powerText hrest
  · rfl

/-- A power of ten has its sign before its digits. -/
theorem takeSign_signed
    (e : Int) (rest : List Char) :
    takeSign ((if 0 ≤ e then ['+'] else []) ++ integerText e ++ rest)
      = (decide (e < 0), digitsOf e.natAbs ++ rest) := by
  cases e with
  | ofNat k => simp [integerText, takeSign]
  | negSucc k => simp [integerText, takeSign, Int.negSucc_lt_zero]

theorem takeExponent_powerText
    (hrest : EndsNumber rest)
    (atEnd : JsonFault) :
    takeExponent atEnd (n.powerText ++ rest) = .ok (n.exponent, rest) := by
  unfold powerText
  cases n.exponent with
  | none =>
      cases rest with
      | nil => rfl
      | cons c rest =>
          have hc : continuesNumber c = false := hrest c rfl
          have hmark : ¬ (c = 'e' ∨ c = 'E') := by
            rintro (rfl | rfl) <;> exact absurd hc (by decide)
          simp [takeExponent, hmark]
  | some e =>
      have htake := takeDigits_append (digitsOf_ne_nil e.natAbs)
        (fun _ => isDigit_of_mem_digitsOf) hrest.startsWithDigit atEnd
      simp only [List.cons_append, takeExponent, true_or, if_true, takeSign_signed, htake,
        digitsValue_digitsOf, decide_eq_true_eq]
      split
      · next hneg => rw [Int.ofNat_natAbs_of_nonpos (by omega), Int.neg_neg]
      · next hpos => rw [Int.natAbs_of_nonneg (by omega)]

theorem takeFraction_fractionText_append
    (h : n.Proper)
    (hrest : EndsNumber rest)
    (atEnd : JsonFault) :
    takeFraction atEnd (n.fractionText ++ (n.powerText ++ rest))
      = .ok (n.fraction, n.powerText ++ rest) := by
  unfold fractionText
  by_cases hempty : n.fraction = []
  · have hpoint : ∀ s, n.powerText ++ rest ≠ '.' :: s := by
      intro s hs
      unfold powerText at hs
      split at hs
      · exact absurd (hrest '.' (by simp [show rest = '.' :: s from hs])) (by decide)
      · simp at hs
    rw [hempty, List.isEmpty_nil, if_pos rfl, List.nil_append, takeFraction.eq_def]
    split
    · next s hs => exact absurd hs (hpoint s)
    · rfl
  · rw [if_neg (by simpa using hempty), List.cons_append, takeFraction]
    exact takeDigits_append hempty h.fraction (startsWithDigit_powerText hrest) atEnd

theorem takeWhole_append
    (h : n.Standard)
    (hrest : startsWithDigit rest = false)
    (atEnd : JsonFault) :
    takeWhole atEnd (n.whole ++ rest) = .ok (n.whole, rest) := by
  have htake := takeDigits_append h.whole_ne_nil h.whole hrest atEnd
  rcases h.leading with hzero | hhead
  · rw [hzero]
    simp [takeWhole, hrest]
  · obtain ⟨c, digits, hwhole⟩ := List.exists_cons_of_ne_nil h.whole_ne_nil
    have hc : c ≠ '0' := by simpa [hwhole] using hhead
    rw [hwhole, List.cons_append] at htake ⊢
    rw [takeWhole.eq_def]
    split
    · next heq =>
      cases heq
      exact absurd rfl hc
    · exact htake

theorem takeMinus_text
    (h : n.Proper) :
    takeMinus (n.text Json.numbers.plus ++ rest)
      = (n.negative, n.whole ++ (n.fractionText ++ (n.powerText ++ rest))) := by
  rw [text_json_eq]
  cases n.negative with
  | true => simp [takeMinus]
  | false =>
      have hstart : startsWithDigit (n.whole ++ (n.fractionText ++ (n.powerText ++ rest))) = true :=
        startsWithDigit_append h.whole_ne_nil h.whole
      simpa using takeMinus_of_startsWithDigit hstart

/-- A numeral is read back from its text, whatever may follow a number. -/
theorem takeNumber_text
    (h : n.Standard)
    (hrest : EndsNumber rest)
    (atEnd : JsonFault) :
    takeNumber atEnd (n.text Json.numbers.plus ++ rest) = .ok (n, rest) := by
  have hwhole := takeWhole_append h
    (startsWithDigit_fractionText_append (n := n) hrest) atEnd
  simp only [takeNumber, takeMinus_text h.toProper, hwhole,
    takeFraction_fractionText_append h.toProper hrest, takeExponent_powerText hrest]

/-- The text of a numeral starts with a sign or a digit. -/
theorem exists_text_eq_cons
    (h : n.Proper) :
    ∃ c s, n.text Json.numbers.plus = c :: s ∧ (c = '-' ∨ c.isDigit = true) := by
  rw [text_json_eq]
  cases n.negative with
  | true => exact ⟨'-', _, rfl, .inl rfl⟩
  | false =>
      obtain ⟨c, digits, hwhole⟩ := List.exists_cons_of_ne_nil h.whole_ne_nil
      have hc : c ∈ n.whole := by simp [hwhole]
      exact ⟨c, digits ++ (n.fractionText ++ n.powerText), by simp [hwhole], .inr (h.whole c hc)⟩

end Text

section Written

theorem standard_ofInt
    (i : Int) :
    (ofInt i).Standard where
  toProper := proper_ofInt i
  leading := noLeadingZero_digitsOf i.natAbs

/-- Digits before a point are those of the number, or a zero. -/
theorem noLeadingZero_plain
    {negative : Bool} {digits : Nat} {exponent : Int}
    (hpos : 0 < digits) :
    NoLeadingZero (plain negative (digitsOf digits) exponent).whole := by
  have hhead := head?_digitsOf hpos
  obtain ⟨c, rest, hdigits⟩ := List.exists_cons_of_ne_nil (digitsOf_ne_nil digits)
  rw [hdigits] at hhead ⊢
  unfold plain
  dsimp only
  split
  · exact .inl rfl
  · refine .inr ?_
    split
    · next hpoint _ =>
      obtain ⟨k, hk⟩ : ∃ k, (((c :: rest).length : Int) + exponent).toNat = k + 1 :=
        ⟨_, (Nat.succ_pred_eq_of_pos (by omega)).symm⟩
      rw [hk]
      exact hhead
    · exact hhead

theorem noLeadingZero_scientific
    {negative : Bool} {digits : Nat} {exponent : Int}
    (hpos : 0 < digits) :
    NoLeadingZero (scientific negative (digitsOf digits) exponent).whole := by
  have hhead := head?_digitsOf hpos
  obtain ⟨c, rest, hdigits⟩ := List.exists_cons_of_ne_nil (digitsOf_ne_nil digits)
  rw [hdigits] at hhead ⊢
  exact .inr hhead

/-- What is written for a floating-point number is a JSON number. -/
theorem standard_ofFloat
    (style : NumberStyle) (x : Float) :
    (ofFloat style x).Standard where
  toProper := (proper_ofFloat style x).1
  leading := by
    unfold ofFloat
    dsimp only
    split
    · exact .inl rfl
    · next hmantissa =>
      have hreads := Binary.readsBack_shortest (Nat.pos_of_ne_zero hmantissa) style.tie
      split
      · exact noLeadingZero_plain hreads.1
      · exact noLeadingZero_scientific hreads.1

end Written

end Numeral

end TaskTree
