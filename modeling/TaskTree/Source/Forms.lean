import TaskTree.Source.Token
import TaskTree.Value.Equality

/-!
# Forms of a source text

The tokens of a text are folded into values.  What has been read so far is a
list of finished forms and a stack of collections that are still open; a closing
bracket finishes the innermost one.  `Value.readAll` reads every form of a text,
`Value.read` a text that is exactly one form.
-/

namespace TaskTree

/-- A collection whose closing bracket has not been seen: its items, last first, and the text
from its opening bracket on. -/
structure OpenCollection where
  bracket : Bracket
  start : List Char
  items : List Value

/-- What has been read of a text: the finished forms, last first, and the open collections,
innermost first. -/
structure Progress where
  forms : List Value
  unclosed : List OpenCollection

/-- Takes the items of a map two at a time, as key and value. -/
def pairUp : List Value → List (Value × Value)
  | key :: value :: items => (key, value) :: pairUp items
  | _ => []

/-- The value of a collection whose items are complete. -/
def OpenCollection.close (collection : OpenCollection) : Except ReadFailure Value :=
  let items := collection.items.reverse
  match collection.bracket with
  | .round => .ok (.list items)
  | .square => .ok (.vector items)
  | .curly =>
      if items.length % 2 = 0 then .ok (.map (Entries.ofList (pairUp items)))
      else .error ⟨.unevenMap, collection.start⟩

namespace Progress

/-- Nothing has been read. -/
def start : Progress :=
  { forms := [], unclosed := [] }

/-- Adds a value to the innermost open collection, or to the finished forms. -/
def add (progress : Progress) (value : Value) : Progress :=
  match progress.unclosed with
  | [] => { progress with forms := value :: progress.forms }
  | inner :: outer =>
      { progress with unclosed := { inner with items := value :: inner.items } :: outer }

/-- Takes one more token into account. -/
def step (progress : Progress) (token : Token) : Except ReadFailure Progress :=
  match token.lexeme with
  | .opening bracket =>
      .ok { progress with unclosed := ⟨bracket, token.start, []⟩ :: progress.unclosed }
  | .closing bracket =>
      match progress.unclosed with
      | [] => .error ⟨.unexpectedClosing, token.start⟩
      | inner :: outer =>
          if inner.bracket = bracket then
            match inner.close with
            | .ok value => .ok ({ progress with unclosed := outer }.add value)
            | .error failure => .error failure
          else .error ⟨.unexpectedClosing, token.start⟩
  | .atom value => .ok (progress.add value)
  | .broken failure => .error failure

/-- Takes one more token into account, unless a form is already finished. -/
def stepWithinForm (progress : Progress) (token : Token) : Except ReadFailure Progress :=
  match progress.forms, progress.unclosed with
  | _ :: _, [] => .error ⟨.trailingInput, token.start⟩
  | _, _ => progress.step token

/-- The forms that have been read, if no collection is open. -/
def finish (progress : Progress) : Except ReadFailure (List Value) :=
  match progress.unclosed with
  | [] => .ok progress.forms.reverse
  | _ :: _ => .error ⟨.unterminatedCollection, []⟩

end Progress

/-- The forms of a sequence of tokens. -/
def Token.forms (tokens : List Token) : Except ReadFailure (List Value) := do
  let progress ← tokens.foldlM Progress.step Progress.start
  progress.finish

/-- The form of a sequence of tokens that is exactly one form. -/
def Token.form (tokens : List Token) : Except ReadFailure Value := do
  let progress ← tokens.foldlM Progress.stepWithinForm Progress.start
  match ← progress.finish with
  | form :: _ => pure form
  | [] => throw ⟨.unexpectedEnd, []⟩

namespace Value

/-- Reads every form of a text. -/
def readAll (source : String) : Except ReadError (List Value) :=
  (Token.forms (Token.ofText source.toList)).mapError (·.locate source.toList)

/-- Reads a text that holds exactly one form. -/
def read (source : String) : Except ReadError Value :=
  (Token.form (Token.ofText source.toList)).mapError (·.locate source.toList)

end Value
end TaskTree
