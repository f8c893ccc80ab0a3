import TaskTree.Source.Forms

/-!
# Reading a text in place

The reader once more, without tokens: one index moves over the bytes of a text in UTF-8, and a
collection is read by reading its items.  A byte is taken for the character of its number.  For
the characters that matter to the reader that is right, since they have one byte each; all other
bytes belong to longer characters and are symbol characters.

Pieces of the text are cut out between two indices, which is only possible where no character is
cut apart.  Every repetition has a limit on its steps, `fuel`, and says so when the limit is
reached.  `InPlace.readAll` and `InPlace.read` give what `Value.readAll` and `Value.read` give.
-/

namespace TaskTree

/-- What is reported about a text that cannot be read: a description, and an offset in bytes. -/
structure Notice where
  message : String
  offset : Nat
deriving DecidableEq, Repr

/-- An error as it is reported. -/
def ReadError.notice (error : ReadError) : Notice where
  message := error.fault.message
  offset := error.offset

/-- The kind of brackets that a character opens. -/
def Bracket.opened? : Char → Option Bracket
  | '(' => some .round
  | '[' => some .square
  | '{' => some .curly
  | _ => none

/-- The kind of brackets that a character closes. -/
def Bracket.closed? : Char → Option Bracket
  | ')' => some .round
  | ']' => some .square
  | '}' => some .curly
  | _ => none

namespace InPlace

/-- Why reading stops before its end. -/
inductive Stop where
  /-- The text cannot be read. -/
  | reported (notice : Notice)
  /-- A piece of the text would start or end within a character. -/
  | misplaced
  /-- The limit on the steps is reached. -/
  | exhausted
deriving DecidableEq, Repr

/-- Reports what is wrong at an index. -/
def report {α : Type} (message : String) (i : Nat) : Except Stop α :=
  .error (.reported ⟨message, i⟩)

/-- The byte at an index, as the character of its number. -/
def peek? (source : String) (i : Nat) : Option Char :=
  source.toByteArray[i]?.map Char.ofUInt8

/-- Whether there is a byte with a property at an index. -/
def looksAt (source : String) (p : Char → Bool) (i : Nat) : Bool :=
  (peek? source i).any p

/-- The next index, up to the end of the text. -/
def advance (source : String) (i : Nat) : Nat :=
  if i < source.utf8ByteSize then i + 1 else i

/-- The piece of a text between two indices, if both lie between characters. -/
def piece? (source : String) (start stop : Nat) : Option String :=
  if h : start ≤ stop ∧ String.Pos.Raw.IsValid source ⟨start⟩
      ∧ String.Pos.Raw.IsValid source ⟨stop⟩ then
    some
      (.ofByteArray (source.toByteArray.extract start stop)
        ((String.Pos.Raw.isValidUTF8_extract_iff ⟨start⟩ ⟨stop⟩ h.1 h.2.2.le_rawEndPos).2
          (.inr h.2)))
  else none

/-- Cuts out the piece of a text between two indices. -/
def cut (source : String) (start stop : Nat) : Except Stop String :=
  match piece? source start stop with
  | some piece => .ok piece
  | none => .error .misplaced

section Separators

/-- Moves behind the end of the line. -/
def skipLine (source : String) : (fuel : Nat) → Nat → Except Stop Nat
  | 0, _ => .error .exhausted
  | fuel + 1, i =>
      match peek? source i with
      | none => .ok i
      | some c =>
          if c = '\n' then .ok (advance source i) else skipLine source fuel (advance source i)

/-- Moves over separators and comments. -/
def skip (source : String) : (fuel : Nat) → Nat → Except Stop Nat
  | 0, _ => .error .exhausted
  | fuel + 1, i =>
      match peek? source i with
      | none => .ok i
      | some c =>
          if isSeparator c then skip source fuel (advance source i)
          else if c = ';' then do
            let i ← skipLine source fuel i
            skip source fuel i
          else .ok i

/-- Moves over the bytes with a property. -/
def skipWhile (source : String) (p : Char → Bool) : (fuel : Nat) → Nat → Except Stop Nat
  | 0, _ => .error .exhausted
  | fuel + 1, i =>
      if looksAt source p i then skipWhile source p fuel (advance source i) else .ok i

end Separators

section Atoms

/-- Takes the longest run of symbol characters. -/
def takeRun (source : String) (fuel start : Nat) : Except Stop (String × Nat) := do
  let stop ← skipWhile source isSymbolChar fuel start
  return (← cut source start stop, stop)

/-- Reads a keyword from its colon on. -/
def keyword (source : String) (fuel i : Nat) : Except Stop (Value × Nat) := do
  let (name, stop) ← takeRun source fuel (advance source i)
  if name.isEmpty then report "empty keyword" stop else return (.keyword name, stop)

/-- Reads a symbol, or a word that stands for a value. -/
def word (source : String) (fuel i : Nat) : Except Stop (Value × Nat) := do
  let (name, stop) ← takeRun source fuel i
  if name.isEmpty then report "unexpected character" stop
  else return (Atom.word name.toList, stop)

/-- Moves over a sign, if there is one. -/
def skipSign (source : String) (i : Nat) : Nat :=
  if looksAt source (fun c => c == '-' || c == '+') i then advance source i else i

/-- Moves over a point with digits behind it, if there is one. -/
def skipFraction (source : String) (fuel i : Nat) : Except Stop (Bool × Nat) :=
  if looksAt source (· == '.') i && looksAt source Char.isDigit (i + 1) then do
    return (true, ← skipWhile source Char.isDigit fuel (advance source i))
  else .ok (false, i)

/-- Moves over a power of ten, if there is one.  Without digits behind its mark it is none, and the
index goes back to the mark. -/
def skipPower (source : String) (fuel mark : Nat) : Except Stop (Bool × Nat) :=
  if looksAt source (fun c => c == 'e' || c == 'E') mark then
    let i := skipSign source (advance source mark)
    if looksAt source Char.isDigit i then do
      return (true, ← skipWhile source Char.isDigit fuel i)
    else .ok (false, mark)
  else .ok (false, mark)

/-- The place of a numeral: the index where a power of ten would start, the one behind the
numeral, and whether it has a point or a power of ten. -/
structure Extent where
  mark : Nat
  stop : Nat
  decimal : Bool
deriving DecidableEq, Repr

/-- Finds the longest numeral at an index.  Without a digit behind its sign there is none. -/
def extent? (source : String) (fuel start : Nat) : Except Stop (Option Extent) :=
  let i := skipSign source start
  if looksAt source Char.isDigit i then do
    let i ← skipWhile source Char.isDigit fuel i
    let (fraction, mark) ← skipFraction source fuel i
    let (power, stop) ← skipPower source fuel mark
    return some { mark, stop, decimal := fraction || power }
  else .ok none

/-- The numeral that a whole text is. -/
def numeral? (text : String) : Option Numeral :=
  let (numeral, rest) := Atom.takeNumeral text.toList
  if Atom.isNumeric text.toList ∧ rest = [] then some numeral else none

/-- The floating-point number that a whole text is written for. -/
def float? (text : String) : Option Float :=
  (numeral? text).map Numeral.nearest

/-- The integer of 64 bits that a whole text is written for. -/
def integer? (text : String) : Option Int64 := do
  let numeral ← numeral? text
  if numeral.isInteger then int64? numeral.wholeValue else none

/-- Reads a number, or a word if there is no digit behind the sign. -/
def number (source : String) (fuel start : Nat) : Except Stop (Value × Nat) := do
  match ← extent? source fuel start with
  | none => word source fuel start
  | some extent =>
      if looksAt source isSymbolChar extent.stop then
        report "invalid number literal" extent.stop
      else do
        let text ← cut source start extent.stop
        if extent.decimal then
          match float? text with
          | some x => return (.float x, extent.stop)
          | none => report "invalid float literal" extent.stop
        else
          match integer? text with
          | some n => return (.integer n, extent.stop)
          | none => report "invalid integer literal" extent.stop

end Atoms

section Strings

/-- Collects the bytes of a string literal from behind its opening quote. -/
def collect (source : String) : (fuel : Nat) → Nat → ByteArray → Except Stop (ByteArray × Nat)
  | 0, _, _ => .error .exhausted
  | fuel + 1, i, bytes =>
      match peek? source i with
      | none => report "unterminated string literal" i
      | some c =>
          let i := advance source i
          if c = '"' then .ok (bytes, i)
          else if c = '\\' then
            match peek? source i with
            | none => report "incomplete escape" i
            | some letter =>
                let i := advance source i
                match Quoted.unescape? letter with
                | some decoded => collect source fuel i (bytes.push decoded.toUInt8)
                | none => report ("unknown escape: \\" ++ String.ofList [letter]) i
          else collect source fuel i (bytes.push c.toUInt8)

/-- Reads a string from its opening quote on. -/
def string (source : String) (fuel i : Nat) : Except Stop (Value × Nat) := do
  let (bytes, stop) ← collect source fuel (advance source i) ByteArray.empty
  match String.fromUTF8? bytes with
  | some text => return (.string text, stop)
  | none => report "invalid UTF-8 in string literal" stop

end Strings

section Forms

/-- The value of a pair of brackets with the given items between them, of which the first bracket is
at the given index. -/
def enclosed (bracket : Bracket) (items : List Value) (i : Nat) : Except Stop Value :=
  match bracket with
  | .round => .ok (.list items)
  | .square => .ok (.vector items)
  | .curly =>
      if items.length % 2 = 0 then .ok (.map (Entries.ofList (pairUp items)))
      else report "map literal requires an even number of forms" i

/-- Reads a form without parts, which starts with the given byte. -/
def atom (source : String) (fuel i : Nat) (c : Char) : Except Stop (Value × Nat) :=
  if c = '"' then string source fuel i
  else if c = ':' then keyword source fuel i
  else if c = '-' ∨ c = '+' ∨ c.isDigit then number source fuel i
  else word source fuel i

mutual

/-- Reads one form. -/
def value (source : String) : (fuel : Nat) → Nat → Except Stop (Value × Nat)
  | 0, _ => .error .exhausted
  | fuel + 1, i => do
      let i ← skip source fuel i
      match peek? source i with
      | none => report "unexpected end of input" i
      | some c =>
          match Bracket.opened? c with
          | some bracket => do
              let (items, stop) ← items source bracket fuel (advance source i) []
              return (← enclosed bracket items i, stop)
          | none =>
              if (Bracket.closed? c).isSome then report "unexpected closing delimiter" i
              else atom source fuel i c

/-- Reads items up to a closing bracket, behind the items that have been read, the last one
first. -/
def items (source : String) (bracket : Bracket) :
    (fuel : Nat) → Nat → List Value → Except Stop (List Value × Nat)
  | 0, _, _ => .error .exhausted
  | fuel + 1, i, before => do
      let i ← skip source fuel i
      match peek? source i with
      | none => report "unterminated collection" i
      | some c =>
          if Bracket.closed? c = some bracket then return (before.reverse, advance source i)
          else do
            let (item, i) ← value source fuel i
            items source bracket fuel i (item :: before)

end

/-- Reads forms up to the end of a text, behind the forms that have been read, the last one
first. -/
def forms (source : String) : (fuel : Nat) → Nat → List Value → Except Stop (List Value)
  | 0, _, _ => .error .exhausted
  | fuel + 1, i, before => do
      let i ← skip source fuel i
      if source.utf8ByteSize ≤ i then return before.reverse
      else do
        let (form, i) ← value source fuel i
        forms source fuel i (form :: before)

end Forms

/-- The steps that a text is allowed, in proportion to its length. -/
def allowance (source : String) : Nat :=
  2 * source.utf8ByteSize + 4

/-- Reads every form of a text. -/
def readAll (source : String) : Except Stop (List Value) :=
  forms source (allowance source) 0 []

/-- Reads the first form of a text, if there is one, and moves over what separates behind it. -/
def first (source : String) : Except Stop (Option Value × Nat) := do
  let i ← skip source (allowance source) 0
  if source.utf8ByteSize ≤ i then return (none, i)
  else do
    let (form, i) ← value source (allowance source) i
    return (some form, ← skip source (allowance source) i)

/-- Reads a text that holds exactly one form. -/
def read (source : String) : Except Stop Value := do
  match ← first source with
  | (none, i) => report "unexpected end of input" i
  | (some form, i) =>
      if i < source.utf8ByteSize then report "unexpected trailing input" i else return form

end InPlace
end TaskTree
