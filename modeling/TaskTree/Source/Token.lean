import TaskTree.Decimal.Rounding
import TaskTree.Source.Quoted
import TaskTree.Value.Basic

/-!
# Tokens of a source text

A source text is cut into tokens: brackets, and atoms, which already stand for
values.  Blanks, commas and comments separate tokens.  An atom is a string
literal or a longest run of symbol characters; such a run is a keyword, a number
or a symbol, and which one it is shows from its first characters.
-/

namespace TaskTree

/-- The characters that separate tokens. -/
def isSeparator (c : Char) : Bool :=
  c == ' ' || c == '\t' || c == '\n' || c == '\x0c' || c == '\r' || c == ','

/-- The characters that stand for themselves as tokens, open a string or open a comment. -/
def isDelimiter (c : Char) : Bool :=
  c == '(' || c == ')' || c == '[' || c == ']' || c == '{' || c == '}' || c == '"' || c == ';'

/-- The characters of symbols, keywords and numbers. -/
def isSymbolChar (c : Char) : Bool :=
  !isSeparator c && !isDelimiter c

mutual

/-- Drops separators and comments from the start of a text. -/
def skipSeparators : List Char → List Char
  | [] => []
  | c :: s =>
      if isSeparator c then skipSeparators s
      else if c = ';' then skipComment s
      else c :: s

/-- Drops the rest of a comment, up to the end of its line, and what separates after it. -/
def skipComment : List Char → List Char
  | [] => []
  | c :: s => if c = '\n' then skipSeparators s else skipComment s

end

mutual

theorem length_skipSeparators_le :
    ∀ s : List Char, (skipSeparators s).length ≤ s.length
  | [] => by simp [skipSeparators]
  | c :: s => by
      have hs := length_skipSeparators_le s
      have hc := length_skipComment_le s
      simp only [skipSeparators, List.length_cons]
      split
      · omega
      · split
        · omega
        · simp

theorem length_skipComment_le :
    ∀ s : List Char, (skipComment s).length ≤ s.length
  | [] => by simp [skipComment]
  | c :: s => by
      have hs := length_skipSeparators_le s
      have hc := length_skipComment_le s
      simp only [skipComment, List.length_cons]
      split <;> omega

end

/-- The three kinds of brackets. -/
inductive Bracket where
  | round
  | square
  | curly
deriving DecidableEq, Repr

/-- What a token stands for.  A broken one ends the tokens of its text. -/
inductive Lexeme where
  | opening (bracket : Bracket)
  | closing (bracket : Bracket)
  | atom (value : Value)
  | broken (failure : ReadFailure)

/-- A token, and the text from its first character on. -/
structure Token where
  lexeme : Lexeme
  start : List Char

namespace Atom

/-- Takes the digits after a point, if a point with at least one digit follows. -/
def takeFraction : List Char → List Char × List Char
  | '.' :: s =>
      if startsWithDigit s then (s.takeWhile Char.isDigit, s.dropWhile Char.isDigit)
      else ([], '.' :: s)
  | s => ([], s)

/-- Takes a power of ten, if its mark is followed by at least one digit. -/
def takeExponent (s : List Char) : Option Int × List Char :=
  match s with
  | mark :: after =>
      let (negative, digits) := takeSign after
      if (mark = 'e' ∨ mark = 'E') ∧ startsWithDigit digits then
        let size : Int := digitsValue (digits.takeWhile Char.isDigit)
        (some (if negative then -size else size), digits.dropWhile Char.isDigit)
      else (none, s)
  | [] => (none, [])

/-- Takes the longest numeral from the start of a text. -/
def takeNumeral (s : List Char) : Numeral × List Char :=
  let (negative, s) := takeSign s
  let whole := s.takeWhile Char.isDigit
  let (fraction, s) := takeFraction (s.dropWhile Char.isDigit)
  let (exponent, s) := takeExponent s
  ({ negative, whole, fraction, exponent }, s)

/-- Whether a run of symbol characters is read as a number: a digit comes first, or a sign and a
digit. -/
def isNumeric (run : List Char) : Bool :=
  startsWithDigit (takeSign run).2

/-- The value of a run that is read as a number. -/
def number (run : List Char) : Except ReadFailure Value :=
  let (numeral, rest) := takeNumeral run
  if rest ≠ [] then .error ⟨.invalidNumber, rest⟩
  else if numeral.isInteger then
    match int64? numeral.wholeValue with
    | some i => .ok (.integer i)
    | none => .error ⟨.invalidInteger, []⟩
  else .ok (.float numeral.nearest)

/-- The value of a run that is neither a keyword nor a number. -/
def word (run : List Char) : Value :=
  match String.ofList run with
  | "true" => .boolean true
  | "false" => .boolean false
  | "nil" => .nil
  | name => .symbol name

/-- The value of a run of symbol characters.  A failure says what was left of the run. -/
def value (run : List Char) : Except ReadFailure Value :=
  match run with
  | ':' :: [] => .error ⟨.emptyKeyword, []⟩
  | ':' :: name => .ok (.keyword (String.ofList name))
  | _ => if isNumeric run then number run else .ok (word run)

end Atom

/-- The token that starts with the given character, and the text after it. -/
def Lexeme.next (c : Char) (s : List Char) : Lexeme × List Char :=
  match c with
  | '(' => (.opening .round, s)
  | '[' => (.opening .square, s)
  | '{' => (.opening .curly, s)
  | ')' => (.closing .round, s)
  | ']' => (.closing .square, s)
  | '}' => (.closing .curly, s)
  | '"' =>
      match Quoted.decode s with
      | .ok (text, rest) => (.atom (.string (String.ofList text)), rest)
      | .error failure => (.broken failure, [])
  | _ =>
      if isSymbolChar c then
        let rest := s.dropWhile isSymbolChar
        match Atom.value (c :: s.takeWhile isSymbolChar) with
        | .ok value => (.atom value, rest)
        | .error failure => (.broken { failure with rest := failure.rest ++ rest }, [])
      else (.broken ⟨.unexpectedCharacter, c :: s⟩, [])

/-- A token takes its first character at least. -/
theorem Lexeme.length_next_le
    (c : Char) (s : List Char) :
    (Lexeme.next c s).2.length ≤ s.length := by
  unfold Lexeme.next
  split
  case h_7 =>
    split
    · next h => exact Nat.le_of_lt (Quoted.length_of_decode h)
    · simp
  case h_8 =>
    split
    · split
      · exact Text.length_dropWhile_le _ _
      · simp
    · simp
  all_goals simp

/-- What is left after a token is shorter than the text before the token. -/
theorem Token.length_rest_lt
    {s : List Char} {c : Char} {rest : List Char}
    (h : skipSeparators s = c :: rest) :
    (Lexeme.next c rest).2.length < s.length := by
  have hskip := length_skipSeparators_le s
  have hnext := Lexeme.length_next_le c rest
  rw [h, List.length_cons] at hskip
  omega

/-- Finds the first token of a text. -/
def Token.scan (s : List Char) : Option (Text.Piece Token s) :=
  match h : skipSeparators s with
  | [] => none
  | c :: rest =>
      some
        { item := { lexeme := (Lexeme.next c rest).1, start := c :: rest }
          rest := (Lexeme.next c rest).2
          shorter := Token.length_rest_lt h }

/-- The tokens of a text. -/
def Token.ofText (s : List Char) : List Token :=
  Text.pieces Token.scan s

end TaskTree
