import TaskTree.Text.Pieces

/-!
# What can be wrong with a source text

Reading fails for one of a few causes.  While a text is read, a failure is
located by what was left of the text; `ReadFailure.locate` turns that into a
byte offset once the whole text is known.
-/

namespace TaskTree

/-- Why a source text cannot be read. -/
inductive ReadFault where
  | unexpectedEnd
  | trailingInput
  | unterminatedCollection
  | unexpectedClosing
  | unevenMap
  | unterminatedString
  | incompleteEscape
  | unknownEscape (escaped : Char)
  | emptyKeyword
  | unexpectedCharacter
  | invalidNumber
  | invalidInteger
deriving DecidableEq, Repr

/-- The first byte of a character in UTF-8, shown as the character of that number. -/
def leadingByte (c : Char) : Char :=
  match String.utf8EncodeChar c with
  | [] => c
  | byte :: _ => Char.ofNat byte.toNat

/-- The description of a fault. -/
def ReadFault.message : ReadFault → String
  | .unexpectedEnd => "unexpected end of input"
  | .trailingInput => "unexpected trailing input"
  | .unterminatedCollection => "unterminated collection"
  | .unexpectedClosing => "unexpected closing delimiter"
  | .unevenMap => "map literal requires an even number of forms"
  | .unterminatedString => "unterminated string literal"
  | .incompleteEscape => "incomplete escape"
  | .unknownEscape escaped => "unknown escape: \\" ++ String.ofList [leadingByte escaped]
  | .emptyKeyword => "empty keyword"
  | .unexpectedCharacter => "unexpected character"
  | .invalidNumber => "invalid number literal"
  | .invalidInteger => "invalid integer literal"

/-- A fault, and what was left of the text where it was noticed. -/
structure ReadFailure where
  fault : ReadFault
  rest : List Char
deriving DecidableEq, Repr

/-- A fault and the offset in bytes at which it is reported. -/
structure ReadError where
  fault : ReadFault
  offset : Nat
deriving DecidableEq, Repr

/-- The number of bytes of what is left that a fault still counts as read: the first byte after
the backslash of an unknown escape. -/
def ReadFault.consumed : ReadFault → Nat
  | .unknownEscape _ => 1
  | _ => 0

/-- Locates a failure in the whole text. -/
def ReadFailure.locate (source : List Char) (failure : ReadFailure) : ReadError where
  fault := failure.fault
  offset := Text.byteLength source - Text.byteLength failure.rest + failure.fault.consumed

/-- The description of an error with its place. -/
def ReadError.message (error : ReadError) : String :=
  error.fault.message ++ " at byte " ++ toString error.offset

end TaskTree
