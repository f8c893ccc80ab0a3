import TaskTree.Proofs.Decimal.Nearest
import TaskTree.Proofs.Source.Grammar

/-!
# Which atoms are numbers

An atom is read as a number if a digit comes first, or a sign and a digit.  It is then an
integer, a floating-point number or a failure, and which of them it is depends on its text
alone: there are no two ways to take it apart, although the reader looks for the longest
numeral and gives up what does not go on.  Every other atom is a keyword, a word that
stands for a value of its own, or a symbol.

**Results.**
* `Value.read_run`: an atom is read on its own as its run is.
* `Value.read_number_iff`: what an atom that starts as a number is read as.
* `Value.read_atom`: that, and what every other atom is read as.
-/

namespace TaskTree

section Spelling

/-- A digit comes first, or a sign and a digit. -/
def StartsNumber (text : List Char) : Prop :=
  ∃ negative sign digit rest, SignText negative sign ∧ Char.isDigit digit = true ∧
    text = sign ++ digit :: rest

/-- What the text of a number is read as. -/
inductive ReadsAsNumber (text : List Char) : Except ReadFault Value → Prop
  | integer
      {n : Int64}
      (h : IntegerText n.toInt text) :
      ReadsAsNumber text (.ok (.integer n))
  | float
      {n : Numeral} {x : Float}
      (h : NumeralText n text)
      (hparts : n.fraction ≠ [] ∨ n.exponent ≠ none)
      (hrounded : Numeral.Rounded n.negative n.magnitude x) :
      ReadsAsNumber text (.ok (.float x))
  | outOfRange
      {i : Int}
      (h : IntegerText i text)
      (hrange : i < -2 ^ 63 ∨ 2 ^ 63 ≤ i) :
      ReadsAsNumber text (.error .invalidInteger)
  | malformed
      (h : ∀ n, ¬ NumeralText n text) :
      ReadsAsNumber text (.error .invalidNumber)

end Spelling

section Runs

variable {run : List Char}

/-- An atom is read on its own as its run is, up to the place of a failure. -/
theorem Value.read_run
    (hrun : IsRun run) :
    (Value.read (String.ofList run)).mapError ReadError.fault
      = (Atom.value run).mapError ReadFailure.fault := by
  cases hvalue : Atom.value run with
  | ok value =>
      rw [(Value.read_run_iff hrun).2 hvalue]
      rfl
  | error failure =>
      obtain ⟨c, run, rfl⟩ := List.exists_cons_of_ne_nil hrun.1
      obtain ⟨hc, htail⟩ := List.forall_mem_cons.1 hrun.2
      have hcomment := ne_semicolon_of_isSymbolChar hc
      have htake : run.takeWhile isSymbolChar = run := by
        simpa using takeWhile_run htail endsRun_nil
      have hnext := @Lexeme.next_symbolChar_error c run _ hc (by rwa [htake])
      rw [Value.read, String.toList_ofList,
        Token.ofText_eq_cons (skipSeparators_token (isSymbolChar_iff.1 hc).1 hcomment), hnext]
      rfl

theorem Atom.isNumeric_iff :
    Atom.isNumeric run = true ↔ StartsNumber run := by
  constructor
  · intro h
    rcases htake : takeSign run with ⟨negative, rest⟩
    rw [Atom.isNumeric, htake] at h
    obtain ⟨sign, hsign, rfl⟩ := (takeSign_eq_iff h).1 htake
    cases rest with
    | nil => cases h
    | cons digit rest => exact ⟨negative, sign, digit, rest, hsign, h, rfl⟩
  · rintro ⟨negative, sign, digit, rest, hsign, hdigit, rfl⟩
    have hstart : startsWithDigit (digit :: rest) = true := hdigit
    rw [Atom.isNumeric, (takeSign_eq_iff hstart).2 ⟨sign, hsign, rfl⟩]
    exact hstart

/-- What is neither a keyword nor a number is a word that stands for a value, or a symbol. -/
theorem Atom.value_word
    (hnumeric : Atom.isNumeric run = false)
    (hcolon : run.head? ≠ some ':') :
    Atom.value run = .ok (Atom.word run) := by
  unfold Atom.value
  split
  · exact absurd rfl hcolon
  · exact absurd rfl hcolon
  · rw [if_neg (by simp [hnumeric])]

theorem Atom.word_cases
    (run : List Char) :
    Atom.word run = .nil ∨ (∃ flag, Atom.word run = .boolean flag) ∨
      Atom.word run = .symbol (String.ofList run) := by
  unfold Atom.word
  split
  · exact .inr (.inl ⟨true, rfl⟩)
  · exact .inr (.inl ⟨false, rfl⟩)
  · exact .inl rfl
  · exact .inr (.inr rfl)

end Runs

section Numbers

variable {text : List Char}

theorem Numeral.isInteger_eq_false_iff
    {n : Numeral} :
    n.isInteger = false ↔ n.fraction ≠ [] ∨ n.exponent ≠ none := by
  simp only [isInteger, Bool.and_eq_false_iff, List.isEmpty_eq_false_iff,
    Option.isNone_eq_false_iff, ne_eq, Option.isSome_iff_ne_none]

/-- The texts of integers are those of numerals without a point and a power of ten. -/
theorem integerText_iff
    {i : Int} :
    IntegerText i text ↔
      ∃ n : Numeral, NumeralText n text ∧ n.isInteger = true ∧ n.wholeValue = i := by
  constructor
  · rintro ⟨hsign, hdigits⟩
    have htext := NumeralText.intro hsign hdigits .none .none
    rw [List.append_nil, List.append_nil] at htext
    exact ⟨_, htext, rfl, rfl⟩
  · rintro ⟨n, ⟨hsign, hwhole, hfraction, hexponent⟩, hinteger, rfl⟩
    cases hfraction with
    | some hdigits => simp [Numeral.isInteger, hdigits.1] at hinteger
    | none =>
        cases hexponent with
        | some hmark h => cases hinteger
        | none =>
            rw [List.append_nil, List.append_nil]
            exact .intro hsign hwhole

/-- An integer that 64 bits do not hold is out of their range. -/
theorem int64?_eq_none_iff
    {i : Int} :
    int64? i = none ↔ i < -2 ^ 63 ∨ 2 ^ 63 ≤ i := by
  unfold int64?
  split
  · simp only [reduceCtorEq, false_iff]
    omega
  · simp only [true_iff]
    omega

namespace Atom

/-- What a text is read as that is one of a numeral. -/
theorem number_of_numeralText
    {n : Numeral}
    (h : NumeralText n text) :
    number text =
      if n.isInteger then
        match int64? n.wholeValue with
        | some i => .ok (.integer i)
        | none => .error ⟨.invalidInteger, []⟩
      else .ok (.float n.nearest) := by
  have htake := (takeNumeral_eq_iff (isNumeric_of_numeralText h)).2 h
  rw [number, htake]
  exact if_neg (not_not.2 rfl)

/-- What a text is read as that starts as a number and is one of no numeral. -/
theorem number_of_malformed
    (hnumeric : isNumeric text = true)
    (h : ∀ n, ¬ NumeralText n text) :
    (number text).mapError ReadFailure.fault = .error .invalidNumber := by
  have hrest : (takeNumeral text).2 ≠ [] := fun hrest =>
    h (takeNumeral text).1 ((takeNumeral_eq_iff hnumeric).1 (Prod.ext rfl hrest))
  rw [number]
  simp only [if_pos hrest]
  rfl

/-- The reader follows the spelling of a number. -/
theorem number_eq_iff
    {result : Except ReadFault Value}
    (hnumeric : isNumeric text = true) :
    (number text).mapError ReadFailure.fault = result ↔ ReadsAsNumber text result := by
  constructor
  · rintro rfl
    by_cases hspelled : ∃ n, NumeralText n text
    · obtain ⟨n, htext⟩ := hspelled
      rw [number_of_numeralText htext]
      split
      · next hinteger =>
        split
        · next i hi =>
          exact .integer (integerText_iff.2 ⟨n, htext, hinteger, (int64?_eq_some_iff.1 hi).symm⟩)
        · next hi =>
          exact .outOfRange (integerText_iff.2 ⟨n, htext, hinteger, rfl⟩)
            (int64?_eq_none_iff.1 hi)
      · next hfloat =>
        exact .float htext (Numeral.isInteger_eq_false_iff.1 (by simpa using hfloat))
          n.rounded_nearest
    · rw [number_of_malformed hnumeric (not_exists.1 hspelled)]
      exact .malformed (not_exists.1 hspelled)
  · intro h
    cases h with
    | @integer i h =>
        obtain ⟨n, htext, hinteger, hvalue⟩ := integerText_iff.1 h
        have hi : int64? n.wholeValue = some i := int64?_eq_some_iff.2 hvalue.symm
        rw [number_of_numeralText htext, if_pos hinteger]
        simp only [hi]
        rfl
    | float htext hparts hrounded =>
        rw [number_of_numeralText htext,
          if_neg (by simp [Numeral.isInteger_eq_false_iff.2 hparts]),
          Numeral.nearest_eq_iff.2 hrounded]
        rfl
    | @outOfRange i h hrange =>
        obtain ⟨n, htext, hinteger, rfl⟩ := integerText_iff.1 h
        rw [number_of_numeralText htext, if_pos hinteger]
        simp only [int64?_eq_none_iff.2 hrange]
        rfl
    | malformed h => exact number_of_malformed hnumeric h

end Atom

/-- What an atom that starts as a number is read as. -/
theorem Value.read_number_iff
    {result : Except ReadFault Value}
    (hrun : IsRun text)
    (hnumber : StartsNumber text) :
    (Value.read (String.ofList text)).mapError ReadError.fault = result ↔
      ReadsAsNumber text result := by
  have hnumeric := Atom.isNumeric_iff.2 hnumber
  rw [Value.read_run hrun, Atom.value_of_isNumeric hnumeric]
  exact Atom.number_eq_iff hnumeric

/-- An atom that starts as a number is read as what its spelling says, and never as a symbol.  Every
other one that is no keyword is read as a symbol or as the value that the word stands for. -/
theorem Value.read_atom
    (hrun : IsRun text) :
    (StartsNumber text →
        (∀ result, (Value.read (String.ofList text)).mapError ReadError.fault = result ↔
          ReadsAsNumber text result) ∧
        ∀ name, Value.read (String.ofList text) ≠ .ok (.symbol name)) ∧
      (¬ StartsNumber text → text.head? ≠ some ':' →
        ∃ value, Value.read (String.ofList text) = .ok value ∧
          (value = .nil ∨ (∃ flag, value = .boolean flag) ∨
            value = .symbol (String.ofList text))) := by
  constructor
  · intro hnumber
    refine ⟨fun result => Value.read_number_iff hrun hnumber, fun name h => ?_⟩
    have hsymbol := Value.read_number_iff hrun hnumber |>.1 (congrArg (Except.mapError _) h)
    cases hsymbol
  · intro hnumber hcolon
    have hnumeric : Atom.isNumeric text = false :=
      Bool.eq_false_iff.2 fun h => hnumber (Atom.isNumeric_iff.1 h)
    exact ⟨_, (Value.read_run_iff hrun).2 (Atom.value_word hnumeric hcolon), Atom.word_cases text⟩

/-- A mark of a power of ten without digits makes a run no number, not a symbol. -/
theorem Value.read_atom_power :
    IsRun "1e+".toList ∧ StartsNumber "1e+".toList ∧
      (Value.read (String.ofList "1e+".toList)).mapError ReadError.fault
        = .error .invalidNumber := by
  have hrun : IsRun "1e+".toList := by decide
  have hnumber : StartsNumber "1e+".toList :=
    ⟨false, [], '1', ['e', '+'], .none, by decide, rfl⟩
  refine ⟨hrun, hnumber, ((Value.read_atom hrun).1 hnumber).1 _ |>.2 (.malformed fun n h => ?_)⟩
  -- the power of ten has no digits, so that nothing after the one is taken
  have htake := (Atom.takeNumeral_eq_iff (Atom.isNumeric_iff.2 hnumber)).2 h
  have hrest : (Atom.takeNumeral "1e+".toList).2 = ['e', '+'] := rfl
  rw [htake] at hrest
  cases hrest

end Numbers

end TaskTree
