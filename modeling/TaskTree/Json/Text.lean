import TaskTree.Json.Fault
import TaskTree.Text.Pieces

/-!
# JSON strings

A JSON string stands between double quotes.  Quotes, backslashes and control
characters are written with a backslash.  An escape names a unit of UTF-16, so
two of them may make one character, and a surrogate without its partner makes
none.  `decode` insists on characters; `skip` only follows the grammar.
-/

namespace TaskTree
namespace JsonText

/-- The digit of the given value below sixteen. -/
def hexDigit (n : Nat) : Char :=
  if n < 10 then Char.ofNat (48 + n) else Char.ofNat (87 + n)

/-- The characters that stand for one character between the quotes. -/
def escapeChar (c : Char) : List Char :=
  if c = '"' then ['\\', '"']
  else if c = '\\' then ['\\', '\\']
  else if c = '\x08' then ['\\', 'b']
  else if c = '\x0c' then ['\\', 'f']
  else if c = '\n' then ['\\', 'n']
  else if c = '\r' then ['\\', 'r']
  else if c = '\t' then ['\\', 't']
  else if c.toNat < 0x20 then
    ['\\', 'u', '0', '0', hexDigit (c.toNat / 16), hexDigit (c.toNat % 16)]
  else [c]

/-- The string of a text. -/
def encode (text : List Char) : List Char :=
  '"' :: (text.flatMap escapeChar ++ ['"'])

/-- The value of a hexadecimal digit of either case. -/
def hexValue? (c : Char) : Option Nat :=
  if '0' ≤ c ∧ c ≤ '9' then some (c.toNat - 48)
  else if 'a' ≤ c ∧ c ≤ 'f' then some (c.toNat - 87)
  else if 'A' ≤ c ∧ c ≤ 'F' then some (c.toNat - 55)
  else none

/-- Takes the four hexadecimal digits of an escape. -/
def takeUnit (s : List Char) : Except JsonFault (Nat × List Char) :=
  match s with
  | a :: b :: c :: d :: rest =>
      match hexValue? a, hexValue? b, hexValue? c, hexValue? d with
      | some a, some b, some c, some d => .ok (((a * 16 + b) * 16 + c) * 16 + d, rest)
      | _, _, _, _ => .error .invalidEscape
  | _ => if Text.byteLength s < 4 then .error .endInString else .error .invalidEscape

/-- What four digits were taken from is longer than what is left. -/
theorem length_of_takeUnit
    {s rest : List Char} {n : Nat}
    (h : takeUnit s = .ok (n, rest)) :
    rest.length < s.length := by
  unfold takeUnit at h
  split at h
  · split at h
    · simp only [Except.ok.injEq, Prod.mk.injEq] at h
      simp only [List.length_cons, ← h.2]
      omega
    · cases h
  · split at h <;> cases h

/-- Whether a unit of UTF-16 is the first half of a pair. -/
def isLeading (n : Nat) : Bool :=
  0xD800 ≤ n && n ≤ 0xDBFF

/-- Whether a unit of UTF-16 is the second half of a pair. -/
def isTrailing (n : Nat) : Bool :=
  0xDC00 ≤ n && n ≤ 0xDFFF

/-- Takes the second half of a pair, which has to follow at once. -/
def takePartner (s : List Char) : Except JsonFault (Nat × List Char) :=
  match s with
  | [] => .error .endInString
  | ['\\'] => .error .endInString
  | '\\' :: 'u' :: rest =>
      match takeUnit rest with
      | .ok (n, after) => if isTrailing n then .ok (n, after) else .error .loneSurrogate
      | .error fault => .error fault
  | _ => .error .endOfEscape

theorem length_of_takePartner
    {s rest : List Char} {n : Nat}
    (h : takePartner s = .ok (n, rest)) :
    rest.length < s.length := by
  unfold takePartner at h
  split at h
  · cases h
  · cases h
  · split at h
    · next htake =>
      have := length_of_takeUnit htake
      split at h
      · simp only [Except.ok.injEq, Prod.mk.injEq] at h
        simp only [List.length_cons, ← h.2]
        omega
      · cases h
    · cases h
  · cases h

/-- Takes the character that an escape names, from behind its `u`. -/
def takeEscaped (s : List Char) : Except JsonFault (Char × List Char) :=
  match takeUnit s with
  | .error fault => .error fault
  | .ok (n, rest) =>
      if isTrailing n then .error .loneSurrogate
      else if isLeading n then
        match takePartner rest with
        | .error fault => .error fault
        | .ok (m, after) =>
            .ok (Char.ofNat (0x10000 + (n - 0xD800) * 0x400 + (m - 0xDC00)), after)
      else .ok (Char.ofNat n, rest)

theorem length_of_takeEscaped
    {s rest : List Char} {c : Char}
    (h : takeEscaped s = .ok (c, rest)) :
    rest.length < s.length := by
  unfold takeEscaped at h
  split at h
  · cases h
  · next htake =>
    have h1 := length_of_takeUnit htake
    split at h
    · cases h
    · split at h
      · split at h
        · cases h
        · next hpartner =>
          have h2 := length_of_takePartner hpartner
          simp only [Except.ok.injEq, Prod.mk.injEq] at h
          rw [← h.2]
          omega
      · simp only [Except.ok.injEq, Prod.mk.injEq] at h
        rw [← h.2]
        exact h1

/-- The character that a letter after a backslash stands for, `u` apart. -/
def unescape? : Char → Option Char
  | '"' => some '"'
  | '\\' => some '\\'
  | '/' => some '/'
  | 'b' => some '\x08'
  | 'f' => some '\x0c'
  | 'n' => some '\n'
  | 'r' => some '\r'
  | 't' => some '\t'
  | _ => none

/-- Puts a character in front of a text that has been read. -/
def prepend (c : Char) :
    Except JsonFault (List Char × List Char) → Except JsonFault (List Char × List Char)
  | .ok (text, rest) => .ok (c :: text, rest)
  | .error fault => .error fault

/-- Reads a string from behind its opening quote: its text, and what follows it. -/
def decode (s : List Char) : Except JsonFault (List Char × List Char) :=
  match s with
  | [] => .error .endInString
  | '"' :: rest => .ok ([], rest)
  | ['\\'] => .error .endInString
  | '\\' :: 'u' :: rest =>
      match h : takeEscaped rest with
      | .error fault => .error fault
      | .ok (c, after) =>
          have := length_of_takeEscaped h
          prepend c (decode after)
  | '\\' :: letter :: rest =>
      match unescape? letter with
      | some c => prepend c (decode rest)
      | none => .error .invalidEscape
  | c :: rest =>
      if c.toNat < 0x20 then .error .controlCharacter else prepend c (decode rest)
termination_by s.length

/-- Follows a string from behind its opening quote to what comes after it, without asking
whether its escapes name characters. -/
def skip (s : List Char) : Except JsonFault (List Char) :=
  match s with
  | [] => .error .endInString
  | '"' :: rest => .ok rest
  | ['\\'] => .error .endInString
  | '\\' :: 'u' :: rest =>
      match h : takeUnit rest with
      | .error fault => .error fault
      | .ok (_, after) =>
          have := length_of_takeUnit h
          skip after
  | '\\' :: letter :: rest =>
      match unescape? letter with
      | some _ => skip rest
      | none => .error .invalidEscape
  | c :: rest => if c.toNat < 0x20 then .error .controlCharacter else skip rest
termination_by s.length

/-- What follows a string is shorter than the text behind its opening quote. -/
theorem length_of_skip
    {s rest : List Char}
    (h : skip s = .ok rest) :
    rest.length < s.length := by
  fun_induction skip s <;> grind

end JsonText
end TaskTree
