import Mathlib.Algebra.Group.Nat.Defs
import TaskTree.Proofs.Source.Lexing
import TaskTree.Value.Written

/-!
# The texts of numerals

A numeral may be written in several ways, which differ in plus signs and in the mark
of the power of ten.  `NumeralText` lists them all.  The reader finds the numeral in
each of them, and in no other text.  The text that is written for a numeral is one
of them and consists of symbol characters.

**Results.**
* `Atom.takeNumeral_eq_iff`: the texts in which a numeral is found, with nothing left.
* `Numeral.takeNumeral_text`: a numeral is read from the text that is written for it.
* `Atom.value_integerText`: an integer is read from its text.
* `Atom.value_text`: a numeral with a point or a power of ten is read as the nearest number.
* `Atom.takeNumeral_behind`: a numeral is taken from a text whatever stands behind its run.
-/

namespace TaskTree

section Digits

variable {digits rest : List Char}

theorem takeWhile_digits
    (hdigits : ∀ c ∈ digits, c.isDigit = true)
    (hrest : startsWithDigit rest = false) :
    (digits ++ rest).takeWhile Char.isDigit = digits := by
  rw [List.takeWhile_append_of_pos hdigits]
  cases rest with
  | nil => simp
  | cons c rest =>
      have hc : c.isDigit = false := hrest
      simp [hc]

theorem dropWhile_digits
    (hdigits : ∀ c ∈ digits, c.isDigit = true)
    (hrest : startsWithDigit rest = false) :
    (digits ++ rest).dropWhile Char.isDigit = rest := by
  rw [List.dropWhile_append_of_pos hdigits]
  cases rest with
  | nil => simp
  | cons c rest =>
      have hc : c.isDigit = false := hrest
      simp [hc]

theorem startsWithDigit_append
    (hne : digits ≠ [])
    (hdigits : ∀ c ∈ digits, c.isDigit = true) :
    startsWithDigit (digits ++ rest) = true := by
  obtain ⟨c, digits, rfl⟩ := List.exists_cons_of_ne_nil hne
  exact hdigits c List.mem_cons_self

/-- A text that starts with a digit has no sign. -/
theorem takeSign_of_startsWithDigit
    (h : startsWithDigit rest = true) :
    takeSign rest = (false, rest) := by
  unfold takeSign
  split
  · exact absurd (show Char.isDigit '-' = true from h) (by decide)
  · exact absurd (show Char.isDigit '+' = true from h) (by decide)
  · rfl

/-- A text that starts with neither sign has none. -/
theorem takeSign_unsigned
    {c : Char} {s : List Char}
    (h : ¬ (c = '-' ∨ c = '+')) :
    takeSign (c :: s) = (false, c :: s) := by
  unfold takeSign
  split
  · next heq => exact absurd (.inl (List.cons.inj heq).1) h
  · next heq => exact absurd (.inr (List.cons.inj heq).1) h
  · rfl

/-- A number of so many digits is smaller than that power of ten. -/
theorem digitsValue_lt
    (hdigits : ∀ c ∈ digits, c.isDigit = true) :
    digitsValue digits < 10 ^ digits.length := by
  have hbound : ∀ init, Nat.ofDigitChars 10 digits init < (init + 1) * 10 ^ digits.length := by
    induction digits with
    | nil => simp
    | cons c digits ih =>
        intro init
        obtain ⟨hc, hdigits⟩ := List.forall_mem_cons.1 hdigits
        have hdigit : c.toNat - '0'.toNat ≤ 9 := by
          have hhigh : c.toNat ≤ 57 := (Char.isDigit_iff_toNat.1 hc).2
          have hzero : '0'.toNat = 48 := rfl
          omega
        rw [Nat.ofDigitChars_cons]
        calc Nat.ofDigitChars 10 digits (10 * init + (c.toNat - '0'.toNat))
            < (10 * init + (c.toNat - '0'.toNat) + 1) * 10 ^ digits.length := ih hdigits _
          _ ≤ (init + 1) * 10 * 10 ^ digits.length := Nat.mul_le_mul_right _ (by omega)
          _ = (init + 1) * 10 ^ (c :: digits).length := by
              rw [List.length_cons, Nat.pow_succ', Nat.mul_assoc]
  simpa [digitsValue] using hbound 0

theorem digitsOf_ne_nil
    (n : Nat) :
    digitsOf n ≠ [] :=
  Nat.toDigits_ne_nil

end Digits

section Texts

/-- One digit or more. -/
def Digits (s : List Char) : Prop :=
  s ≠ [] ∧ ∀ c ∈ s, c.isDigit = true

/-- A sign, or none, and whether it is a minus. -/
inductive SignText : Bool → List Char → Prop
  | none : SignText false []
  | plus : SignText false ['+']
  | minus : SignText true ['-']

/-- An integer with or without a sign. -/
inductive IntegerText : Int → List Char → Prop
  | intro
      {negative : Bool} {sign digits : List Char}
      (hsign : SignText negative sign)
      (hdigits : Digits digits) :
      IntegerText (if negative then -(digitsValue digits : Int) else digitsValue digits)
        (sign ++ digits)

/-- A point and the digits after it, or nothing. -/
inductive FractionText : List Char → List Char → Prop
  | none : FractionText [] []
  | some {digits : List Char} (hdigits : Digits digits) : FractionText digits ('.' :: digits)

/-- A mark and the power of ten, or nothing. -/
inductive ExponentText : Option Int → List Char → Prop
  | none : ExponentText none []
  | some
      {mark : Char} {exponent : Int} {s : List Char}
      (hmark : mark = 'e' ∨ mark = 'E')
      (h : IntegerText exponent s) :
      ExponentText (some exponent) (mark :: s)

/-- Digits with or without a sign, a point and a power of ten. -/
inductive NumeralText : Numeral → List Char → Prop
  | intro
      {negative : Bool} {whole fraction sign point power : List Char} {exponent : Option Int}
      (hsign : SignText negative sign)
      (hwhole : Digits whole)
      (hfraction : FractionText fraction point)
      (hexponent : ExponentText exponent power) :
      NumeralText ⟨negative, whole, fraction, exponent⟩ (sign ++ (whole ++ (point ++ power)))

end Texts

section Found

variable {s rest : List Char}

theorem Digits.startsWithDigit
    (h : Digits s)
    (rest : List Char) :
    startsWithDigit (s ++ rest) = true :=
  startsWithDigit_append h.1 h.2

theorem digits_takeWhile
    (h : startsWithDigit s = true) :
    Digits (s.takeWhile Char.isDigit) := by
  cases s with
  | nil => cases h
  | cons c s =>
      have hc : c.isDigit = true := h
      exact ⟨by simp [hc], List.all_eq_true.1 List.all_takeWhile⟩

/-- A sign is taken from the digits after it. -/
theorem takeSign_eq_iff
    {negative : Bool}
    (hrest : startsWithDigit rest = true) :
    takeSign s = (negative, rest) ↔ ∃ sign, SignText negative sign ∧ s = sign ++ rest := by
  constructor
  · intro h
    unfold takeSign at h
    split at h
    · cases h
      exact ⟨_, .minus, rfl⟩
    · cases h
      exact ⟨_, .plus, rfl⟩
    · cases h
      exact ⟨_, .none, rfl⟩
  · rintro ⟨sign, hsign, rfl⟩
    cases hsign with
    | none => exact takeSign_of_startsWithDigit hrest
    | plus => rfl
    | minus => rfl

theorem SignText.takeSign_eq
    {negative : Bool} {sign digits : List Char}
    (hsign : SignText negative sign)
    (hdigits : Digits digits)
    (rest : List Char) :
    takeSign (sign ++ (digits ++ rest)) = (negative, digits ++ rest) :=
  (takeSign_eq_iff (hdigits.startsWithDigit rest)).2 ⟨sign, hsign, rfl⟩

/-- What is written for an integer is a text of it. -/
theorem integerText_integerText
    (i : Int) :
    IntegerText i (integerText i) := by
  cases i with
  | ofNat n =>
      have h := IntegerText.intro .none ⟨digitsOf_ne_nil n, fun _ => isDigit_of_mem_digitsOf⟩
      rw [digitsValue_digitsOf] at h
      exact h
  | negSucc n =>
      have h := IntegerText.intro .minus
        ⟨digitsOf_ne_nil (n + 1), fun _ => isDigit_of_mem_digitsOf⟩
      rw [digitsValue_digitsOf] at h
      exact h

theorem startsWithDigit_exponent
    {exponent : Option Int}
    (h : ExponentText exponent s) :
    startsWithDigit s = false := by
  cases h with
  | none => rfl
  | some hmark h => rcases hmark with rfl | rfl <;> rfl

theorem startsWithDigit_fraction
    {fraction : List Char}
    (h : FractionText fraction s)
    (hrest : startsWithDigit rest = false) :
    startsWithDigit (s ++ rest) = false := by
  cases h with
  | none => exact hrest
  | some hdigits => rfl

namespace Atom

/-- A power of ten is taken where one stands. -/
theorem takeExponent_eq
    {exponent : Option Int}
    (h : ExponentText exponent s) :
    takeExponent s = (exponent, []) := by
  cases h with
  | none => rfl
  | some hmark h =>
      obtain ⟨hsign, hdigits⟩ := h
      have hstart := hdigits.startsWithDigit []
      have hend : startsWithDigit [] = false := rfl
      have htake := takeWhile_digits hdigits.2 hend
      have hdrop := dropWhile_digits hdigits.2 hend
      rw [List.append_nil] at hstart htake hdrop
      have hsigned := hsign.takeSign_eq hdigits []
      rw [List.append_nil] at hsigned
      simp only [takeExponent, hsigned, hmark, hstart, and_self, if_true, htake, hdrop]

/-- Digits after a point are taken where they stand. -/
theorem takeFraction_eq
    {fraction : List Char} {exponent : Option Int}
    (h : FractionText fraction s)
    (hrest : ExponentText exponent rest) :
    takeFraction (s ++ rest) = (fraction, rest) := by
  cases h with
  | none =>
      cases hrest with
      | none => rfl
      | some hmark h => rcases hmark with rfl | rfl <;> rfl
  | some hdigits =>
      have hends := startsWithDigit_exponent hrest
      rw [List.cons_append, takeFraction, if_pos (hdigits.startsWithDigit rest),
        takeWhile_digits hdigits.2 hends, dropWhile_digits hdigits.2 hends]

/-- What is taken as a power of ten is one. -/
theorem exponentText_of_takeExponent
    {exponent : Option Int}
    (h : takeExponent s = (exponent, rest)) :
    ∃ power, ExponentText exponent power ∧ s = power ++ rest := by
  unfold takeExponent at h
  split at h
  · next mark after =>
    dsimp only at h
    split at h
    · next hcond =>
      cases h
      obtain ⟨hmark, hstart⟩ := hcond
      have hdigits := digits_takeWhile hstart
      obtain ⟨sign, hsign, hafter⟩ := (takeSign_eq_iff hstart).1 rfl
      refine ⟨_, .some hmark (.intro hsign hdigits), ?_⟩
      rw [List.cons_append, List.append_assoc, List.takeWhile_append_dropWhile, ← hafter]
    · cases h
      exact ⟨[], .none, rfl⟩
  · cases h
    exact ⟨[], .none, rfl⟩

/-- What is taken as digits after a point is that. -/
theorem fractionText_of_takeFraction
    {fraction : List Char}
    (h : takeFraction s = (fraction, rest)) :
    ∃ point, FractionText fraction point ∧ s = point ++ rest := by
  unfold takeFraction at h
  split at h
  · split at h
    · next hstart =>
      cases h
      refine ⟨_, .some (digits_takeWhile hstart), ?_⟩
      rw [List.cons_append, List.takeWhile_append_dropWhile]
    · cases h
      exact ⟨[], .none, rfl⟩
  · cases h
    exact ⟨[], .none, rfl⟩

/-- The numeral that is found stands in front of what is left. -/
theorem numeralText_of_takeNumeral
    (hnumeric : isNumeric s = true) :
    ∃ text, NumeralText (takeNumeral s).1 text ∧ s = text ++ (takeNumeral s).2 := by
  rcases hs : takeSign s with ⟨negative, afterSign⟩
  rcases hf : takeFraction (afterSign.dropWhile Char.isDigit) with ⟨fraction, afterFraction⟩
  rcases he : takeExponent afterFraction with ⟨exponent, rest⟩
  rw [isNumeric, hs] at hnumeric
  obtain ⟨sign, hsign, rfl⟩ := (takeSign_eq_iff hnumeric).1 hs
  obtain ⟨point, hfraction, hpoint⟩ := fractionText_of_takeFraction hf
  obtain ⟨power, hexponent, hpower⟩ := exponentText_of_takeExponent he
  have htake : takeNumeral (sign ++ afterSign)
      = (⟨negative, afterSign.takeWhile Char.isDigit, fraction, exponent⟩, rest) := by
    simp only [takeNumeral, hs, hf, he]
  rw [htake]
  refine ⟨_, .intro hsign (digits_takeWhile hnumeric) hfraction hexponent, ?_⟩
  simp only [List.append_assoc, ← hpower, ← hpoint, List.takeWhile_append_dropWhile]

/-- A text of a numeral is read as a number. -/
theorem isNumeric_of_numeralText
    {n : Numeral}
    (h : NumeralText n s) :
    isNumeric s = true := by
  obtain ⟨hsign, hwhole, -, -⟩ := h
  rw [isNumeric, hsign.takeSign_eq hwhole]
  exact hwhole.startsWithDigit _

/-- A numeral is found, with nothing left, in the texts of the numeral. -/
theorem takeNumeral_eq_iff
    {n : Numeral}
    (hnumeric : isNumeric s = true) :
    takeNumeral s = (n, []) ↔ NumeralText n s := by
  constructor
  · intro h
    obtain ⟨text, htext, hs⟩ := numeralText_of_takeNumeral hnumeric
    rw [h] at htext hs
    rwa [hs, List.append_nil]
  · rintro ⟨hsign, hwhole, hfraction, hexponent⟩
    have hends := startsWithDigit_fraction hfraction (startsWithDigit_exponent hexponent)
    simp only [takeNumeral, hsign.takeSign_eq hwhole, takeWhile_digits hwhole.2 hends,
      dropWhile_digits hwhole.2 hends, takeFraction_eq hfraction hexponent,
      takeExponent_eq hexponent]

end Atom

end Found

namespace Numeral

/-- A numeral whose parts are digits, with at least one before the point. -/
structure Proper (n : Numeral) : Prop where
  whole_ne_nil : n.whole ≠ []
  whole : ∀ c ∈ n.whole, c.isDigit = true
  fraction : ∀ c ∈ n.fraction, c.isDigit = true

/-- The text of the digits after the point. -/
def fractionText (n : Numeral) : List Char :=
  if n.fraction.isEmpty then [] else '.' :: n.fraction

/-- The text of the power of ten. -/
def exponentText (n : Numeral) : List Char :=
  match n.exponent with
  | none => []
  | some e => 'e' :: integerText e

theorem text_eq
    (n : Numeral) :
    n.text false
      = (if n.negative then ['-'] else []) ++ (n.whole ++ (n.fractionText ++ n.exponentText)) := by
  rw [text, fractionText, exponentText]
  cases n.exponent <;> simp

/-- The text that is written for a numeral is one of its texts. -/
theorem numeralText_text
    {n : Numeral}
    (h : n.Proper) :
    NumeralText n (n.text false) := by
  rw [text_eq]
  refine .intro ?sign ⟨h.whole_ne_nil, h.whole⟩ ?fraction ?exponent
  case sign =>
    cases n.negative with
    | true => exact .minus
    | false => exact .none
  case fraction =>
    unfold fractionText
    by_cases hempty : n.fraction = []
    · rw [hempty]
      exact .none
    · rw [if_neg (by simpa using hempty)]
      exact .some ⟨hempty, h.fraction⟩
  case exponent =>
    unfold exponentText
    cases n.exponent with
    | none => exact .none
    | some e => exact .some (.inl rfl) (integerText_integerText e)

/-- The text of a numeral is read as a number. -/
theorem isNumeric_text
    {n : Numeral}
    (h : n.Proper) :
    Atom.isNumeric (n.text false) = true :=
  Atom.isNumeric_of_numeralText (numeralText_text h)

/-- A numeral is read from its text, and nothing is left. -/
theorem takeNumeral_text
    {n : Numeral}
    (h : n.Proper) :
    Atom.takeNumeral (n.text false) = (n, []) :=
  (Atom.takeNumeral_eq_iff (isNumeric_text h)).2 (numeralText_text h)

theorem isSymbolChar_integerText
    {i : Int} {c : Char}
    (h : c ∈ integerText i) :
    isSymbolChar c = true := by
  cases i with
  | ofNat n => exact isSymbolChar_of_isDigit (isDigit_of_mem_digitsOf h)
  | negSucc n =>
      rcases List.mem_cons.1 h with rfl | h
      · decide
      · exact isSymbolChar_of_isDigit (isDigit_of_mem_digitsOf h)

/-- The text of a numeral is one run. -/
theorem isRun_text
    {n : Numeral}
    (h : n.Proper) :
    IsRun (n.text false) := by
  rw [text_eq]
  refine ⟨by simp [h.whole_ne_nil], fun c hc => ?_⟩
  simp only [List.mem_append] at hc
  rcases hc with hc | hc | hc | hc
  · split at hc
    · obtain rfl := List.mem_singleton.1 hc
      decide
    · cases hc
  · exact isSymbolChar_of_isDigit (h.whole c hc)
  · unfold fractionText at hc
    split at hc
    · cases hc
    · rcases List.mem_cons.1 hc with rfl | hc
      · decide
      · exact isSymbolChar_of_isDigit (h.fraction c hc)
  · unfold exponentText at hc
    split at hc
    · cases hc
    · rcases List.mem_cons.1 hc with rfl | hc
      · decide
      · exact isSymbolChar_integerText hc

theorem proper_ofInt
    (i : Int) :
    (ofInt i).Proper :=
  ⟨digitsOf_ne_nil _, fun _ => isDigit_of_mem_digitsOf, by simp [ofInt]⟩

theorem text_ofInt
    (i : Int) :
    (ofInt i).text false = integerText i := by
  cases i with
  | ofNat n => simp [text, ofInt, integerText]
  | negSucc n => simp [text, ofInt, integerText, Int.negSucc_lt_zero]

theorem wholeValue_ofInt
    (i : Int) :
    (ofInt i).wholeValue = i := by
  rw [wholeValue, ofInt]
  simp only [digitsValue_digitsOf, decide_eq_true_eq]
  split <;> omega

theorem isDigit_of_mem_replicate
    {n : Nat} {c : Char}
    (h : c ∈ List.replicate n '0') :
    c.isDigit = true := by
  obtain rfl := List.eq_of_mem_replicate h
  decide

section OfFloat

variable {negative : Bool} {digits : List Char} {exponent : Int}

theorem proper_plain
    (hne : digits ≠ [])
    (hdigits : ∀ c ∈ digits, c.isDigit = true) :
    (plain negative digits exponent).Proper := by
  have hlength : 0 < digits.length := List.length_pos_iff.2 hne
  unfold plain
  dsimp only
  split
  · refine ⟨by simp, by simp, fun c hc => ?_⟩
    exact (List.mem_append.1 hc).elim isDigit_of_mem_replicate (hdigits c)
  · split
    · refine ⟨?_, fun c hc => hdigits c (List.mem_of_mem_take hc),
        fun c hc => hdigits c (List.mem_of_mem_drop hc)⟩
      exact List.ne_nil_of_length_pos (by rw [List.length_take]; omega)
    · refine ⟨by simp [hne], fun c hc => ?_, by simp⟩
      exact (List.mem_append.1 hc).elim (hdigits c) isDigit_of_mem_replicate

theorem isInteger_plain
    (hne : digits ≠ []) :
    (plain negative digits exponent).isInteger = false := by
  have hfraction : (plain negative digits exponent).fraction ≠ [] := by
    unfold plain
    dsimp only
    split
    · simp [hne]
    · split
      · exact List.ne_nil_of_length_pos (by rw [List.length_drop]; omega)
      · simp
  simp [isInteger, hfraction]

theorem proper_scientific
    (hne : digits ≠ [])
    (hdigits : ∀ c ∈ digits, c.isDigit = true) :
    (scientific negative digits exponent).Proper where
  whole_ne_nil := by simp [scientific, hne]
  whole c hc := hdigits c (List.mem_of_mem_take hc)
  fraction c hc := hdigits c (List.mem_of_mem_drop hc)

/-- What is written for a number has digits on both sides of the point or a power of ten. -/
theorem proper_ofFloat
    (style : NumberStyle) (x : Float) :
    (ofFloat style x).Proper ∧ (ofFloat style x).isInteger = false := by
  unfold ofFloat
  dsimp only
  split
  · exact ⟨⟨by simp, by simp, by simp⟩, rfl⟩
  · have hdigits : ∀ n, ∀ c ∈ digitsOf n, c.isDigit = true := fun _ _ => isDigit_of_mem_digitsOf
    split
    · exact ⟨proper_plain (digitsOf_ne_nil _) (hdigits _), isInteger_plain (digitsOf_ne_nil _)⟩
    · exact ⟨proper_scientific (digitsOf_ne_nil _) (hdigits _), by simp [scientific, isInteger]⟩

end OfFloat

end Numeral

namespace Atom

/-- A run that is read as a number is no keyword. -/
theorem value_of_isNumeric
    {run : List Char}
    (h : isNumeric run = true) :
    value run = number run := by
  unfold value
  split
  · exact absurd h (by decide)
  · exact absurd h (by simp [isNumeric, takeSign, startsWithDigit])
  · rw [if_pos h]

theorem value_integerText
    (n : Int64) :
    value (integerText n.toInt) = .ok (.integer n) := by
  have hproper := Numeral.proper_ofInt n.toInt
  have hinteger : (Numeral.ofInt n.toInt).isInteger = true := rfl
  have hvalue : int64? n.toInt = some n := int64?_eq_some_iff.2 rfl
  rw [← Numeral.text_ofInt, value_of_isNumeric (Numeral.isNumeric_text hproper)]
  simp only [number, Numeral.takeNumeral_text hproper, hinteger, Numeral.wholeValue_ofInt, hvalue]
  rfl

/-- A numeral with a point or a power of ten is read as the nearest number. -/
theorem value_text
    {n : Numeral}
    (h : n.Proper)
    (hfloat : n.isInteger = false) :
    value (n.text false) = .ok (.float n.nearest) := by
  rw [value_of_isNumeric (Numeral.isNumeric_text h)]
  simp only [number, Numeral.takeNumeral_text h, hfloat]
  rfl

end Atom

section Behind

variable {s after : List Char}

/-- What does not go on with a symbol character does not go on with a digit. -/
theorem EndsRun.startsWithDigit_eq_false
    (h : EndsRun after) :
    startsWithDigit after = false := by
  cases after with
  | nil => rfl
  | cons c after =>
      refine Bool.eq_false_iff.2 fun hdigit => ?_
      rw [endsRun_cons] at h
      rw [isSymbolChar_of_isDigit hdigit] at h
      cases h

theorem startsWithDigit_behind
    (h : EndsRun after)
    (s : List Char) :
    startsWithDigit (s ++ after) = startsWithDigit s := by
  cases s with
  | nil => exact h.startsWithDigit_eq_false
  | cons c s => rfl

theorem takeWhile_isDigit_behind
    (h : EndsRun after)
    (s : List Char) :
    (s ++ after).takeWhile Char.isDigit = s.takeWhile Char.isDigit := by
  induction s with
  | nil => simpa using takeWhile_digits (List.forall_mem_nil _) h.startsWithDigit_eq_false
  | cons c s ih => simp only [List.cons_append, List.takeWhile_cons, ih]

theorem dropWhile_isDigit_behind
    (h : EndsRun after)
    (s : List Char) :
    (s ++ after).dropWhile Char.isDigit = s.dropWhile Char.isDigit ++ after := by
  induction s with
  | nil => simpa using dropWhile_digits (List.forall_mem_nil _) h.startsWithDigit_eq_false
  | cons c s ih =>
      rw [List.cons_append, List.dropWhile_cons, List.dropWhile_cons, ih]
      split <;> rfl

/-- A sign is taken from a text whatever stands behind it. -/
theorem takeSign_behind
    (h : EndsRun after)
    (s : List Char) :
    takeSign (s ++ after) = ((takeSign s).1, (takeSign s).2 ++ after) := by
  cases s with
  | nil =>
      rw [List.nil_append]
      unfold takeSign
      split
      · cases endsRun_cons.1 h
      · cases endsRun_cons.1 h
      · rfl
  | cons c s =>
      rw [List.cons_append]
      by_cases hc : c = '-' ∨ c = '+'
      · rcases hc with rfl | rfl <;> rfl
      · rw [takeSign_unsigned hc, takeSign_unsigned hc, List.cons_append]

namespace Atom

theorem takeFraction_behind
    (h : EndsRun after)
    (s : List Char) :
    takeFraction (s ++ after) = ((takeFraction s).1, (takeFraction s).2 ++ after) := by
  cases s with
  | nil =>
      rw [List.nil_append]
      unfold takeFraction
      split
      · cases endsRun_cons.1 h
      · rfl
  | cons c s =>
      by_cases hc : c = '.'
      · subst hc
        simp only [List.cons_append, takeFraction, startsWithDigit_behind h,
          takeWhile_isDigit_behind h, dropWhile_isDigit_behind h]
        split <;> rfl
      · simp [takeFraction, hc]

theorem takeExponent_behind
    (h : EndsRun after)
    (s : List Char) :
    takeExponent (s ++ after) = ((takeExponent s).1, (takeExponent s).2 ++ after) := by
  cases s with
  | nil =>
      cases after with
      | nil => rfl
      | cons c after =>
          have hmark : ¬ (c = 'e' ∨ c = 'E') := by
            rintro (rfl | rfl) <;> cases endsRun_cons.1 h
          rw [List.nil_append]
          simp only [takeExponent, hmark, false_and, if_false]
          rfl
  | cons c s =>
      simp only [List.cons_append, takeExponent, takeSign_behind h, startsWithDigit_behind h,
        takeWhile_isDigit_behind h, dropWhile_isDigit_behind h]
      split <;> rfl

/-- A numeral is taken from a text whatever stands behind it. -/
theorem takeNumeral_behind
    (h : EndsRun after)
    (s : List Char) :
    takeNumeral (s ++ after) = ((takeNumeral s).1, (takeNumeral s).2 ++ after) := by
  simp only [takeNumeral, takeSign_behind h, takeWhile_isDigit_behind h,
    dropWhile_isDigit_behind h, takeFraction_behind h, takeExponent_behind h]

theorem isNumeric_behind
    (h : EndsRun after)
    (s : List Char) :
    isNumeric (s ++ after) = isNumeric s := by
  rw [isNumeric, isNumeric, takeSign_behind h, startsWithDigit_behind h]

end Atom

end Behind

end TaskTree
