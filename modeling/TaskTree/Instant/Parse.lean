import TaskTree.Decimal.Numeral
import TaskTree.Instant.Basic
import TaskTree.Text.Blank

/-!
# Reading instants

`Instant.ofStrict?` accepts the internet date-time format: fixed widths, one
separator, an offset that is never missing.  `Instant.ofRelaxed?` accepts what
is stored: years of any length behind a sign, shorter numbers, and blanks
between the parts.  Both move the local time to universal time.
-/

namespace TaskTree
namespace Instant

/-- Takes between `least` and `most` digits from the start of a text. -/
def takeDigits? (least most : Nat) (s : List Char) : Option (Nat × List Char) :=
  let digits := (s.take most).takeWhile Char.isDigit
  if least ≤ digits.length then some (digitsValue digits, s.drop digits.length) else none

/-- Takes a number of exactly the given width. -/
def takeWidth? (width : Nat) : List Char → Option (Nat × List Char) :=
  takeDigits? width width

/-- Takes one given character. -/
def takeChar? (c : Char) : List Char → Option (List Char)
  | d :: s => if d = c then some s else none
  | [] => none

/-- Takes the separator of date and time: a `T` of either case, or one blank. -/
def takeSeparator? : List Char → Option (List Char)
  | d :: s => if d = 'T' ∨ d = 't' ∨ d = ' ' then some s else none
  | [] => none

/-- Takes a fraction of a second, if a point announces one: its nanoseconds.  Digits past the
ninth are dropped. -/
def takeFraction? : List Char → Option (Nat × List Char)
  | '.' :: s =>
      let digits := s.takeWhile Char.isDigit
      if digits.isEmpty then none
      else
        let kept := digits.take 9
        some (digitsValue kept * Nat.pow 10 (9 - kept.length), s.dropWhile Char.isDigit)
  | s => some (0, s)

/-- Takes the sign of an offset: a plus, a hyphen or the minus sign proper. -/
def takeSign? : List Char → Option (Bool × List Char)
  | d :: s =>
      if d = '+' then some (false, s)
      else if d = '-' ∨ d = '\u2212' then some (true, s)
      else none
  | [] => none

/-- Takes an offset: a `Z` of either case, or a sign, hours and minutes with what `colon` takes
between them. -/
def takeOffset? (colon : List Char → Option (List Char)) (s : List Char) :
    Option (Offset × List Char) := do
  match s with
  | 'Z' :: rest => pure (← Offset.of? 0, rest)
  | 'z' :: rest => pure (← Offset.of? 0, rest)
  | _ =>
      let (negative, s) ← takeSign? s
      let (hours, s) ← takeWidth? 2 s
      let s ← colon s
      let (minutes, s) ← takeWidth? 2 s
      guard (minutes < 60)
      let total : Int := hours * 60 + minutes
      pure (← Offset.of? (if negative then -total else total), s)

/-- Reads the internet date-time format. -/
def ofStrict? (s : List Char) : Option Instant := do
  let (year, s) ← takeWidth? 4 s
  let s ← takeChar? '-' s
  let (month, s) ← takeWidth? 2 s
  let s ← takeChar? '-' s
  let (day, s) ← takeWidth? 2 s
  let s ← takeSeparator? s
  let (hour, s) ← takeWidth? 2 s
  let s ← takeChar? ':' s
  let (minute, s) ← takeWidth? 2 s
  let s ← takeChar? ':' s
  let (second, s) ← takeWidth? 2 s
  let (nano, s) ← takeFraction? s
  let (offset, s) ← takeOffset? (takeChar? ':') s
  guard s.isEmpty
  let date ← Date.of? year month day
  let clock ← Clock.of? hour minute second nano
  pure (ofLocal date clock offset)

/-- Takes a number of at most the given width, behind blanks. -/
def takeNumber? (width : Nat) (s : List Char) : Option (Nat × List Char) :=
  takeDigits? 1 width (Text.skipBlank s)

/-- Takes a year behind blanks: at most four digits, or any number of them behind a sign. -/
def takeYear? (s : List Char) : Option (Int × List Char) :=
  match Text.skipBlank s with
  | '-' :: digits => (takeDigits? 1 digits.length digits).map fun (y, rest) => (-(y : Int), rest)
  | '+' :: digits => (takeDigits? 1 digits.length digits).map fun (y, rest) => ((y : Int), rest)
  | digits => (takeDigits? 1 4 digits).map fun (y, rest) => ((y : Int), rest)

/-- Whether a date lies in the years that a stored instant may have. -/
def inStoredYears (date : Date) : Bool :=
  -262143 ≤ date.year && date.year ≤ 262142

/-- Drops colons and blanks. -/
def skipColons (s : List Char) : List Char :=
  s.dropWhile fun c => c == ':' || Text.isBlank c

/-- Takes the zone of a stored instant: universal time by name, or an offset. -/
def takeZone? (s : List Char) : Option (Offset × List Char) :=
  match s with
  | u :: t :: c :: rest =>
      if u.toUpper = 'U' ∧ t.toUpper = 'T' ∧ c.toUpper = 'C' then
        (Offset.of? 0).map (·, rest)
      else takeOffset? (fun s => some (skipColons s)) s
  | _ => takeOffset? (fun s => some (skipColons s)) s

/-- Reads a stored instant. -/
def ofRelaxed? (s : List Char) : Option Instant := do
  let (year, s) ← takeYear? s
  let s ← takeChar? '-' (Text.skipBlank s)
  let (month, s) ← takeNumber? 2 s
  let s ← takeChar? '-' (Text.skipBlank s)
  let (day, s) ← takeNumber? 2 s
  let s ← takeSeparator? s
  let (hour, s) ← takeNumber? 2 s
  let s ← takeChar? ':' (Text.skipBlank s)
  let (minute, s) ← takeNumber? 2 s
  let s ← takeChar? ':' (Text.skipBlank s)
  let (second, s) ← takeNumber? 2 s
  let (nano, s) ← takeFraction? s
  let (offset, s) ← takeZone? (Text.skipBlank s)
  guard (Text.skipBlank s).isEmpty
  let date ← Date.of? year month day
  let clock ← Clock.of? hour minute second nano
  let instant := ofLocal date clock offset
  guard (inStoredYears date && inStoredYears instant.date)
  pure instant

end Instant
end TaskTree
