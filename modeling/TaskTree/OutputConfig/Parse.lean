import TaskTree.Json.Parse
import TaskTree.OutputConfig.Basic
import TaskTree.OutputConfig.Fault

/-!
# Reading configurations

A configuration is an object with the fields `format` and `pretty`, or a list of
the two; what is missing takes its standard value, and other fields do not
matter.  The text is read token by token, and the first thing wrong in it
decides the fault.
-/

namespace TaskTree
namespace OutputConfig

/-- A step of reading: it takes tokens from those that are left, or ends with a fault. -/
abbrev Reading := StateT (List JsonToken) (Except ConfigFault)

/-- Ends with what is wrong with the text as JSON. -/
def malformed {α : Type} (fault : JsonFault) : Reading α :=
  throw (.json fault)

/-- The next token, which is left where it is. -/
def peek : Reading (Option JsonToken) := do
  return (← get).head?

/-- Takes the next token. -/
def take : Reading (Option JsonToken) := do
  let tokens ← get
  set tokens.tail
  return tokens.head?

/-- What a numeral stands for: an integer if it is one of 64 bits, signed or not. -/
def foundNumber (numeral : Numeral) : Except JsonFault Found :=
  let i := numeral.wholeValue
  if numeral.isInteger ∧
      (if numeral.negative then i < 0 ∧ (int64? i).isSome else i < UInt64.size) then
    .ok (.integer i)
  else
    match numeral.stepwise? with
    | some x => .ok (.float x)
    | none => .error .numberOutOfRange

/-- What starts with a token. -/
def found : JsonToken → Except JsonFault Found
  | .word (.ok (.bool flag)) => .ok (.boolean flag)
  | .word (.ok _) => .ok .null
  | .word (.error fault) => .error fault
  | .number start => do
      let (numeral, _) ← JsonToken.takeNumber .endInValue start
      foundNumber numeral
  | .string start => (JsonToken.stringText start).map .string
  | .openList => .ok .list
  | .openObject => .ok .object
  | _ => .error .expectedValue

/-- Ends because a token does not start what is expected. -/
def unexpected {α : Type} (expected : Expected) (token : JsonToken) : Reading α :=
  match found token with
  | .ok found => throw (.wrongType found expected)
  | .error fault => malformed fault

/-- The text of a string that starts behind a quote. -/
def stringText (start : List Char) : Reading String :=
  match JsonToken.stringText start with
  | .ok text => pure text
  | .error fault => malformed fault

/-- The format whose name starts behind a quote. -/
def formatNamed (start : List Char) : Reading OutputFormat := do
  let name ← stringText start
  match OutputFormat.ofName? name with
  | some format => return format
  | none => throw (.unknownFormat name)

/-- Reads a colon. -/
def readColon : Reading Unit := do
  match ← take with
  | some .colon => return
  | none => malformed .endInObject
  | _ => malformed .expectedColon

/-- Reads `null` and the end of its object. -/
def readNothing : Reading Unit := do
  match ← take with
  | none => malformed .endInValue
  | some (.word (.ok .null)) =>
      match ← take with
      | some .closeObject => return
      | none => malformed .endInObject
      | _ => malformed .expectedValue
  | some token => unexpected .nothing token

/-- Reads a format: its name, or an object with that name and nothing under it. -/
def readFormat : Reading OutputFormat := do
  match ← take with
  | none => malformed .endInValue
  | some (.string start) => formatNamed start
  | some .openObject =>
      match ← take with
      | none => malformed .endInValue
      | some (.string start) => do
          let format ← formatNamed start
          readColon
          readNothing
          return format
      | some token => unexpected .formatName token
  | _ => malformed .expectedValue

/-- Reads a truth value. -/
def readFlag : Reading Bool := do
  match ← take with
  | none => malformed .endInValue
  | some (.word (.ok (.bool flag))) => return flag
  | some token => unexpected .boolean token

/-- Reads any tree, and forgets it. -/
def readIgnored : Reading Unit := do
  match Json.run (.wantValue []) (← get) with
  | .ok (_, rest) => set rest
  | .error fault => malformed fault

/-- What has been read of a configuration: the parts that were given. -/
structure Given where
  format : Option OutputFormat
  pretty : Option Bool

/-- Nothing has been read. -/
def Given.nothing : Given where
  format := none
  pretty := none

/-- The configuration with the given parts. -/
def Given.config (given : Given) : OutputConfig where
  format := given.format.getD standard.format
  pretty := given.pretty.getD standard.pretty

/-- Reads the value of a field from behind its name. -/
def readField (given : Given) (name : String) : Reading Given := do
  if name = "format" then
    if given.format.isSome then throw (.duplicateField name)
    readColon
    let format ← readFormat
    return { given with format := some format }
  else if name = "pretty" then
    if given.pretty.isSome then throw (.duplicateField name)
    readColon
    let pretty ← readFlag
    return { given with pretty := some pretty }
  else
    readColon
    readIgnored
    return given

/-- Reads the name of the next field of an object, before which a comma has to come unless it is
the first.  There is none if the object ends. -/
def readName (first : Bool) : Reading (Option String) := do
  match ← take, first with
  | none, _ => malformed .endInObject
  | some .closeObject, _ => return none
  | some (.string start), true => stringText start
  | some _, true => malformed .keyMustBeString
  | some .comma, false =>
      match ← take with
      | none => malformed .endInValue
      | some .closeObject => malformed .trailingComma
      | some (.string start) => stringText start
      | some _ => malformed .keyMustBeString
  | some _, false => malformed .expectedObjectEnd

/-- Reads the fields of an object from behind its brace, at most as many as the first argument
says. -/
def readFields : Nat → (first : Bool) → Given → Reading Given
  | 0, _, _ => malformed .endInObject
  | fields + 1, first, given => do
      match ← readName first with
      | none => return given
      | some name => do
          let given ← readField given name
          readFields fields false given

/-- Goes on to the next item of a list, before which a comma has to come unless it is the first.
Whether there is one is the answer; if not, the end of the list is left to be read. -/
def nextItem (first : Bool) : Reading Bool := do
  match ← peek, first with
  | none, _ => malformed .endInList
  | some .closeList, _ => return false
  | some _, true => return true
  | some .comma, false =>
      let _ ← take
      match ← peek with
      | none => malformed .endInValue
      | some .closeList => malformed .trailingComma
      | some _ => return true
  | some _, false => malformed .expectedListEnd

/-- Reads the end of a list. -/
def readListEnd : Reading Unit := do
  match ← take with
  | none => malformed .endInList
  | some .closeList => return
  | some .comma =>
      match ← take with
      | some .closeList => malformed .trailingComma
      | _ => malformed .trailingCharacters
  | some _ => malformed .trailingCharacters

/-- Reads the items of a list from behind its bracket. -/
def readItems : Reading Given := do
  if ← nextItem true then
    let format ← readFormat
    if ← nextItem false then
      let pretty ← readFlag
      return { format := some format, pretty := some pretty }
    else
      return { format := some format, pretty := none }
  else
    return .nothing

/-- Reads a configuration. -/
def readConfig : Reading Given := do
  match ← take with
  | none => malformed .endInValue
  | some .openList =>
      let given ← readItems
      readListEnd
      return given
  | some .openObject =>
      -- every field takes a token at least
      readFields ((← get).length + 1) true .nothing
  | some token => unexpected .config token

/-- The configuration that a text denotes. -/
def parse (text : String) : Except ConfigFault OutputConfig := do
  let (given, rest) ← readConfig.run (JsonToken.ofText text.toList)
  if rest.isEmpty then return given.config
  else throw (.json .trailingCharacters)

end OutputConfig
end TaskTree
