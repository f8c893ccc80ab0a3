import TaskTree.Source.Fault

/-!
# String literals

A string literal stands between double quotes.  A quote, a backslash, a line
feed, a carriage return and a tab are written with a backslash; every other
character stands for itself.  `decode_escape` says that every text is read back
from its literal, whatever follows.
-/

namespace TaskTree
namespace Quoted

/-- The letter after the backslash for a character that is escaped. -/
def escapeOf? : Char → Option Char
  | '"' => some '"'
  | '\\' => some '\\'
  | '\n' => some 'n'
  | '\r' => some 'r'
  | '\t' => some 't'
  | _ => none

/-- The character that a letter after a backslash stands for. -/
def unescape? : Char → Option Char
  | '"' => some '"'
  | '\\' => some '\\'
  | 'n' => some '\n'
  | 'r' => some '\r'
  | 't' => some '\t'
  | _ => none

/-- The characters of a literal between its quotes. -/
def escape : List Char → List Char
  | [] => []
  | c :: text =>
      match escapeOf? c with
      | some letter => '\\' :: letter :: escape text
      | none => c :: escape text

/-- The literal of a text. -/
def encode (text : List Char) : List Char :=
  '"' :: (escape text ++ ['"'])

/-- Reads a literal from behind its opening quote: its text, and what follows the closing quote. -/
def decode : List Char → Except ReadFailure (List Char × List Char)
  | [] => .error ⟨.unterminatedString, []⟩
  | c :: rest =>
      if c = '"' then .ok ([], rest)
      else if c = '\\' then
        match rest with
        | [] => .error ⟨.incompleteEscape, []⟩
        | letter :: rest' =>
            match unescape? letter with
            | none => .error ⟨.unknownEscape letter, letter :: rest'⟩
            | some decoded =>
                match decode rest' with
                | .ok (text, after) => .ok (decoded :: text, after)
                | .error failure => .error failure
      else
        match decode rest with
        | .ok (text, after) => .ok (c :: text, after)
        | .error failure => .error failure

/-- What follows a literal is shorter than the text behind its opening quote. -/
theorem length_of_decode
    {s text after : List Char}
    (h : decode s = .ok (text, after)) :
    after.length < s.length := by
  fun_induction decode s generalizing text <;> grind

/-- The closing quote ends a literal. -/
theorem decode_quote
    (rest : List Char) :
    decode ('"' :: rest) = .ok ([], rest) := by
  cases rest <;> simp [decode]

/-- A backslash and a known letter stand for one character. -/
theorem decode_letter
    {letter decoded : Char} {rest : List Char}
    (h : unescape? letter = some decoded) :
    decode ('\\' :: letter :: rest)
      = (decode rest).map fun (text, after) => (decoded :: text, after) := by
  rw [decode]
  simp only [h]
  cases decode rest <;> rfl

/-- A character that is neither a quote nor a backslash stands for itself. -/
theorem decode_plain
    {c : Char} {rest : List Char}
    (hquote : c ≠ '"') (hslash : c ≠ '\\') :
    decode (c :: rest) = (decode rest).map fun (text, after) => (c :: text, after) := by
  rw [decode.eq_def]
  simp only [if_neg hquote, if_neg hslash]
  cases decode rest <;> rfl

/-- The letter for an escaped character stands for that character. -/
theorem unescape?_of_escapeOf?
    {c letter : Char}
    (h : escapeOf? c = some letter) :
    unescape? letter = some c := by
  unfold escapeOf? at h
  split at h <;> cases h <;> rfl

/-- A character that stands for itself is neither a quote nor a backslash. -/
theorem ne_of_escapeOf?_eq_none
    {c : Char}
    (h : escapeOf? c = none) :
    c ≠ '"' ∧ c ≠ '\\' := by
  constructor
  · rintro rfl
    cases h
  · rintro rfl
    cases h

/-- Every text is read back from its literal, whatever follows the literal. -/
theorem decode_escape
    (text rest : List Char) :
    decode (escape text ++ '"' :: rest) = .ok (text, rest) := by
  induction text with
  | nil =>
      exact decode_quote rest
  | cons c text ih =>
      rw [escape]
      cases hc : escapeOf? c with
      | none =>
          obtain ⟨hquote, hslash⟩ := ne_of_escapeOf?_eq_none hc
          simp only [List.cons_append]
          rw [decode_plain hquote hslash, ih]
          rfl
      | some letter =>
          simp only [List.cons_append]
          rw [decode_letter (unescape?_of_escapeOf? hc), ih]
          rfl

end Quoted
end TaskTree
