import TaskTree.Json.Text

/-!
# JSON strings read back

Every character is written in one of three ways: behind a backslash as a letter,
as the four digits of its unit, or as itself.  Each way is read back as the
character, whatever follows, and so is every string.

**Results.**
* `JsonText.escapeChar_cases`: the three ways in which a character is written.
* `JsonText.decode_encoded`: a string is read back, with what follows it.
* `JsonText.skip_encoded`: a string is followed to its end.
-/

namespace TaskTree
namespace JsonText

/-- A digit below sixteen has its value. -/
theorem hexValue?_hexDigit
    {n : Nat}
    (h : n < 16) :
    hexValue? (hexDigit n) = some n := by
  have hall : ∀ m : Fin 16, hexValue? (hexDigit m.val) = some m.val := by decide
  exact hall ⟨n, h⟩

/-- The four digits of a control character give its number. -/
theorem takeUnit_control
    {n : Nat}
    (h : n < 0x20)
    (rest : List Char) :
    takeUnit ('0' :: '0' :: hexDigit (n / 16) :: hexDigit (n % 16) :: rest) = .ok (n, rest) := by
  have hzero : hexValue? '0' = some 0 := by decide
  have hhigh := hexValue?_hexDigit (show n / 16 < 16 by omega)
  have hlow := hexValue?_hexDigit (show n % 16 < 16 by omega)
  simp only [takeUnit, hzero, hhigh, hlow, Except.ok.injEq, Prod.mk.injEq, and_true]
  omega

/-- The four digits of a control character name that character. -/
theorem takeEscaped_control
    {c : Char}
    (h : c.toNat < 0x20)
    (rest : List Char) :
    takeEscaped ('0' :: '0' :: hexDigit (c.toNat / 16) :: hexDigit (c.toNat % 16) :: rest)
      = .ok (c, rest) := by
  have htrailing : isTrailing c.toNat = false := by
    simp only [isTrailing, Bool.and_eq_false_iff, decide_eq_false_iff_not]
    omega
  have hleading : isLeading c.toNat = false := by
    simp only [isLeading, Bool.and_eq_false_iff, decide_eq_false_iff_not]
    omega
  simp [takeEscaped, takeUnit_control h, htrailing, hleading]

/-- A character is written as a letter that stands for it, as the number of a control character,
or as itself. -/
theorem escapeChar_cases
    (c : Char) :
    (∃ letter, unescape? letter = some c ∧ escapeChar c = ['\\', letter]) ∨
    (c.toNat < 0x20 ∧
      escapeChar c = ['\\', 'u', '0', '0', hexDigit (c.toNat / 16), hexDigit (c.toNat % 16)]) ∨
    (c ≠ '"' ∧ c ≠ '\\' ∧ ¬ c.toNat < 0x20 ∧ escapeChar c = [c]) := by
  unfold escapeChar
  split
  case isTrue h => exact .inl ⟨'"', by simp [h, unescape?], rfl⟩
  case isFalse hquote =>
  split
  case isTrue h => exact .inl ⟨'\\', by simp [h, unescape?], rfl⟩
  case isFalse hslash =>
  split
  case isTrue h => exact .inl ⟨'b', by simp [h, unescape?], rfl⟩
  split
  case isTrue h => exact .inl ⟨'f', by simp [h, unescape?], rfl⟩
  split
  case isTrue h => exact .inl ⟨'n', by simp [h, unescape?], rfl⟩
  split
  case isTrue h => exact .inl ⟨'r', by simp [h, unescape?], rfl⟩
  split
  case isTrue h => exact .inl ⟨'t', by simp [h, unescape?], rfl⟩
  split
  case isTrue h => exact .inr (.inl ⟨h, rfl⟩)
  case isFalse h => exact .inr (.inr ⟨hquote, hslash, h, rfl⟩)

/-- The letter of a unit stands for no character by itself. -/
theorem ne_u_of_unescape?
    {letter c : Char}
    (h : unescape? letter = some c) :
    letter ≠ 'u' := by
  rintro rfl
  cases h

/-! ## Reading a string -/

section Decode

variable {c : Char} {s rest : List Char}

theorem decode_quote :
    decode ('"' :: rest) = .ok ([], rest) := by
  rw [decode]

theorem decode_letter
    {letter : Char}
    (h : unescape? letter = some c) :
    decode ('\\' :: letter :: rest) = prepend c (decode rest) := by
  rw [decode, h]
  exact ne_u_of_unescape? h

theorem decode_unit
    (h : takeEscaped s = .ok (c, rest)) :
    decode ('\\' :: 'u' :: s) = prepend c (decode rest) := by
  rw [decode]
  split <;> simp_all

theorem decode_plain
    (hquote : c ≠ '"')
    (hslash : c ≠ '\\')
    (hcontrol : ¬ c.toNat < 0x20) :
    decode (c :: rest) = prepend c (decode rest) := by
  rw [decode, if_neg hcontrol]
  all_goals simp_all

/-- A character is read back from what is written for it. -/
theorem decode_escapeChar :
    decode (escapeChar c ++ rest) = prepend c (decode rest) := by
  obtain ⟨letter, hletter, hc⟩ | ⟨hcontrol, hc⟩ | ⟨hquote, hslash, hcontrol, hc⟩ :=
    escapeChar_cases c
  · rw [hc]
    exact decode_letter hletter
  · rw [hc]
    exact decode_unit (takeEscaped_control hcontrol rest)
  · rw [hc]
    exact decode_plain hquote hslash hcontrol

/-- A string is read back from behind its opening quote, whatever follows it. -/
theorem decode_encoded
    (text rest : List Char) :
    decode (text.flatMap escapeChar ++ '"' :: rest) = .ok (text, rest) := by
  induction text with
  | nil => exact decode_quote
  | cons c text ih =>
      rw [List.flatMap_cons, List.append_assoc, decode_escapeChar, ih]
      rfl

end Decode

/-! ## Following a string -/

section Skip

variable {c : Char} {s rest : List Char}

theorem skip_quote :
    skip ('"' :: rest) = .ok rest := by
  rw [skip]

theorem skip_letter
    {letter : Char}
    (h : unescape? letter = some c) :
    skip ('\\' :: letter :: rest) = skip rest := by
  rw [skip, h]
  exact ne_u_of_unescape? h

theorem skip_unit
    {n : Nat}
    (h : takeUnit s = .ok (n, rest)) :
    skip ('\\' :: 'u' :: s) = skip rest := by
  rw [skip]
  split <;> simp_all

theorem skip_plain
    (hquote : c ≠ '"')
    (hslash : c ≠ '\\')
    (hcontrol : ¬ c.toNat < 0x20) :
    skip (c :: rest) = skip rest := by
  simp [skip, hslash, hcontrol]

theorem skip_escapeChar :
    skip (escapeChar c ++ rest) = skip rest := by
  obtain ⟨letter, hletter, hc⟩ | ⟨hcontrol, hc⟩ | ⟨hquote, hslash, hcontrol, hc⟩ :=
    escapeChar_cases c
  · rw [hc]
    exact skip_letter hletter
  · rw [hc]
    exact skip_unit (takeUnit_control hcontrol rest)
  · rw [hc]
    exact skip_plain hquote hslash hcontrol

/-- A string is followed from behind its opening quote to its end. -/
theorem skip_encoded
    (text rest : List Char) :
    skip (text.flatMap escapeChar ++ '"' :: rest) = .ok rest := by
  induction text with
  | nil => exact skip_quote
  | cons c text ih => rw [List.flatMap_cons, List.append_assoc, skip_escapeChar, ih]

end Skip

end JsonText
end TaskTree
