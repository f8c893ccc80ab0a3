import TaskTree.Json.Basic
import TaskTree.Json.Text

/-!
# Tokens of a JSON text

A JSON text is cut into punctuation, words, numbers and strings.  A number or a
string is a token as soon as it begins; what is wrong inside it is found by
whoever reads it, and nothing is cut off behind it then.
-/

namespace TaskTree

/-- A token of a JSON text.  Numbers come with the text that starts with them, strings with the
text behind their opening quote. -/
inductive JsonToken where
  | openList
  | closeList
  | openObject
  | closeObject
  | comma
  | colon
  | word (value : Except JsonFault Json)
  | number (start : List Char)
  | string (start : List Char)
  | other

namespace JsonToken

/-- The characters that separate tokens of a JSON text. -/
def isBlank (c : Char) : Bool :=
  c == ' ' || c == '\n' || c == '\t' || c == '\r'

/-- Takes the given letters from the start of a text. -/
def takeWord : List Char → List Char → Except JsonFault (List Char)
  | [], s => .ok s
  | _ :: _, [] => .error .endInValue
  | letter :: letters, c :: s =>
      if c = letter then takeWord letters s else .error .expectedWord

/-- Takes the digits that have to come first.  The first argument is the fault at the end of the
text. -/
def takeDigits (atEnd : JsonFault) (s : List Char) : Except JsonFault (List Char × List Char) :=
  match s with
  | [] => .error atEnd
  | c :: _ =>
      if c.isDigit then .ok (s.takeWhile Char.isDigit, s.dropWhile Char.isDigit)
      else .error .invalidNumber

/-- Takes an exponent, if its mark is there. -/
def takeExponent (atEnd : JsonFault) (s : List Char) :
    Except JsonFault (Option Int × List Char) :=
  match s with
  | [] => .ok (none, [])
  | mark :: after =>
      if mark = 'e' ∨ mark = 'E' then
        match takeDigits atEnd (takeSign after).2 with
        | .error fault => .error fault
        | .ok (digits, rest) =>
            let size : Int := digitsValue digits
            .ok (some (if (takeSign after).1 then -size else size), rest)
      else .ok (none, mark :: after)

/-- Takes the digits after a point, if a point is there. -/
def takeFraction (atEnd : JsonFault) (s : List Char) :
    Except JsonFault (List Char × List Char) :=
  match s with
  | '.' :: digits => takeDigits atEnd digits
  | _ => .ok ([], s)

/-- Takes the digits before a point: a zero alone, or digits that do not start with one. -/
def takeWhole (atEnd : JsonFault) (s : List Char) :
    Except JsonFault (List Char × List Char) :=
  match s with
  | '0' :: rest => if startsWithDigit rest then .error .invalidNumber else .ok (['0'], rest)
  | _ => takeDigits atEnd s

/-- Takes a minus sign, if one is there. -/
def takeMinus : List Char → Bool × List Char
  | '-' :: s => (true, s)
  | s => (false, s)

/-- Takes a number from the start of a text.  The first argument is the fault where the text ends
within it. -/
def takeNumber (atEnd : JsonFault) (s : List Char) : Except JsonFault (Numeral × List Char) :=
  match takeWhole atEnd (takeMinus s).2 with
  | .error fault => .error fault
  | .ok (whole, s') =>
      match takeFraction atEnd s' with
      | .error fault => .error fault
      | .ok (fraction, s'') =>
          match takeExponent atEnd s'' with
          | .error fault => .error fault
          | .ok (exponent, rest) =>
              .ok ({ negative := (takeMinus s).1, whole, fraction, exponent }, rest)

theorem length_of_takeWord
    {letters s rest : List Char}
    (h : takeWord letters s = .ok rest) :
    rest.length ≤ s.length := by
  fun_induction takeWord letters s <;> grind

theorem length_of_takeDigits
    {atEnd : JsonFault} {s digits rest : List Char}
    (h : takeDigits atEnd s = .ok (digits, rest)) :
    rest.length < s.length := by
  unfold takeDigits at h
  split at h
  · cases h
  · next c after =>
    split at h
    · next hdigit =>
      have hdrop := Text.length_dropWhile_le Char.isDigit after
      simp only [List.dropWhile_cons, hdigit, if_true, Except.ok.injEq, Prod.mk.injEq] at h
      rw [← h.2, List.length_cons]
      omega
    · cases h

theorem length_of_takeExponent
    {atEnd : JsonFault} {s rest : List Char} {exponent : Option Int}
    (h : takeExponent atEnd s = .ok (exponent, rest)) :
    rest.length ≤ s.length := by
  unfold takeExponent at h
  split at h
  · simp only [Except.ok.injEq, Prod.mk.injEq] at h
    simp [← h.2]
  · next mark after =>
    have hsign := length_takeSign_le after
    split at h
    · split at h
      · cases h
      · next htake =>
        have := length_of_takeDigits htake
        simp only [Except.ok.injEq, Prod.mk.injEq] at h
        rw [← h.2, List.length_cons]
        omega
    · simp only [Except.ok.injEq, Prod.mk.injEq] at h
      simp [← h.2]

theorem length_of_takeFraction
    {atEnd : JsonFault} {s digits rest : List Char}
    (h : takeFraction atEnd s = .ok (digits, rest)) :
    rest.length ≤ s.length := by
  unfold takeFraction at h
  split at h
  · have := length_of_takeDigits h
    simp only [List.length_cons]
    omega
  · simp only [Except.ok.injEq, Prod.mk.injEq] at h
    simp [← h.2]

theorem length_of_takeWhole
    {atEnd : JsonFault} {s digits rest : List Char}
    (h : takeWhole atEnd s = .ok (digits, rest)) :
    rest.length < s.length := by
  unfold takeWhole at h
  split at h
  · next after =>
    split at h
    · cases h
    · simp only [Except.ok.injEq, Prod.mk.injEq] at h
      simp [← h.2]
  · exact length_of_takeDigits h

theorem length_takeMinus_le
    (s : List Char) :
    (takeMinus s).2.length ≤ s.length := by
  unfold takeMinus
  split <;> simp

/-- A number takes one character at least. -/
theorem length_of_takeNumber
    {atEnd : JsonFault} {s rest : List Char} {numeral : Numeral}
    (h : takeNumber atEnd s = .ok (numeral, rest)) :
    rest.length < s.length := by
  have hminus := length_takeMinus_le s
  unfold takeNumber at h
  split at h
  · cases h
  · next hwhole =>
    have := length_of_takeWhole hwhole
    split at h
    · cases h
    · next hfraction =>
      have := length_of_takeFraction hfraction
      split at h
      · cases h
      · next hexponent =>
        have := length_of_takeExponent hexponent
        simp only [Except.ok.injEq, Prod.mk.injEq] at h
        rw [← h.2]
        omega

/-- What is left behind a token, or nothing if the token is broken. -/
def restOf (taken : Except JsonFault (List Char)) : List Char :=
  match taken with
  | .ok rest => rest
  | .error _ => []

theorem length_restOf_le
    {s : List Char} {taken : Except JsonFault (List Char)}
    (h : ∀ rest, taken = .ok rest → rest.length ≤ s.length) :
    (restOf taken).length ≤ s.length := by
  unfold restOf
  split
  · exact h _ rfl
  · exact Nat.zero_le _

/-- A word, if the given letters follow its first one. -/
def ofWord (letters : List Char) (value : Json) (s : List Char) : JsonToken × List Char :=
  (.word ((takeWord letters s).map fun _ => value), restOf (takeWord letters s))

theorem length_ofWord_le
    (letters : List Char) (value : Json) (s : List Char) :
    (ofWord letters value s).2.length ≤ s.length :=
  length_restOf_le fun _ h => length_of_takeWord h

/-- The number that starts a text, and the text after it. -/
def ofNumber (s : List Char) : JsonToken × List Char :=
  (.number s, restOf ((takeNumber .invalidNumber s).map (·.2)))

theorem length_ofNumber_lt
    (c : Char) (s : List Char) :
    (ofNumber (c :: s)).2.length ≤ s.length := by
  refine length_restOf_le fun rest h => ?_
  cases htake : takeNumber .invalidNumber (c :: s) with
  | error fault =>
      rw [htake] at h
      cases h
  | ok taken =>
      rw [htake] at h
      have hlt := length_of_takeNumber htake
      simp only [Except.map, Except.ok.injEq] at h
      simp only [h, List.length_cons] at hlt
      omega

/-- The token that starts with the given character, and the text after it. -/
def next (c : Char) (s : List Char) : JsonToken × List Char :=
  match c with
  | '[' => (.openList, s)
  | ']' => (.closeList, s)
  | '{' => (.openObject, s)
  | '}' => (.closeObject, s)
  | ',' => (.comma, s)
  | ':' => (.colon, s)
  | '"' => (.string s, restOf (JsonText.skip s))
  | 'n' => ofWord ['u', 'l', 'l'] .null s
  | 't' => ofWord ['r', 'u', 'e'] (.bool true) s
  | 'f' => ofWord ['a', 'l', 's', 'e'] (.bool false) s
  | _ => if c = '-' ∨ c.isDigit then ofNumber (c :: s) else (.other, s)

theorem length_next_le
    (c : Char) (s : List Char) :
    (next c s).2.length ≤ s.length := by
  unfold next
  split
  case h_7 => exact length_restOf_le fun _ h => Nat.le_of_lt (JsonText.length_of_skip h)
  case h_8 => exact length_ofWord_le _ _ _
  case h_9 => exact length_ofWord_le _ _ _
  case h_10 => exact length_ofWord_le _ _ _
  case h_11 =>
    split
    · exact length_ofNumber_lt c s
    · exact Nat.le_refl _
  all_goals exact Nat.le_refl _

/-- What is left after a token is shorter than the text before the token. -/
theorem length_rest_lt
    {s : List Char} {c : Char} {rest : List Char}
    (h : s.dropWhile isBlank = c :: rest) :
    (next c rest).2.length < s.length := by
  have hblank := Text.length_dropWhile_le isBlank s
  have hnext := length_next_le c rest
  rw [h, List.length_cons] at hblank
  omega

/-- Finds the first token of a text. -/
def scan (s : List Char) : Option (Text.Piece JsonToken s) :=
  match h : s.dropWhile isBlank with
  | [] => none
  | c :: rest =>
      some
        { item := (next c rest).1
          rest := (next c rest).2
          shorter := length_rest_lt h }

/-- The tokens of a JSON text. -/
def ofText (s : List Char) : List JsonToken :=
  Text.pieces scan s

/-- The text of a string, from behind its opening quote. -/
def stringText (start : List Char) : Except JsonFault String :=
  (JsonText.decode start).map fun (text, _) => String.ofList text

end JsonToken
end TaskTree
