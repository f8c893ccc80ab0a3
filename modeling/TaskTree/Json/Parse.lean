import TaskTree.Json.Token

/-!
# Reading JSON trees

A tree is read token by token.  The state of reading is what may come next,
together with the lists and objects that are still open; `Json.run` follows the
tokens until the first tree is complete and returns those after it.
-/

namespace TaskTree

/-- A list or an object that is still open: what it holds, last first, and for an object the name
whose value comes next.  A name is missing if its text is. -/
inductive JsonFrame where
  | list (items : List Json)
  | object (fields : List (Option String × Json)) (name : Option String)

/-- What may come next in a JSON text.  `outer` holds the open frames, innermost first. -/
inductive JsonState where
  | wantValue (outer : List JsonFrame)
  | wantFirstItem (outer : List JsonFrame)
  | wantFirstName (outer : List JsonFrame)
  | wantName (fields : List (Option String × Json)) (outer : List JsonFrame)
  | wantColon (fields : List (Option String × Json)) (name : Option String)
      (outer : List JsonFrame)
  | behind (value : Json) (inner : JsonFrame) (outer : List JsonFrame)

namespace Json

/-- Takes the names of fields whose names all have a text. -/
def namedFields? : List (Option String × Json) → Option (List (String × Json))
  | [] => some []
  | (none, _) :: _ => none
  | (some name, value) :: fields => (namedFields? fields).map ((name, value) :: ·)

/-- The object with the given fields. -/
def ofFields (fields : List (Option String × Json)) : Json :=
  match namedFields? fields with
  | some fields => .object fields
  | none => .unpaired

/-- The string or the unpaired text that starts behind a quote. -/
def ofString (start : List Char) : Except JsonFault Json :=
  match JsonText.skip start with
  | .error fault => .error fault
  | .ok _ =>
      match JsonToken.stringText start with
      | .ok text => .ok (.string text)
      | .error _ => .ok .unpaired

end Json

namespace JsonState

/-- The fault if the text ends here. -/
def atEnd : JsonState → JsonFault
  | .wantValue _ => .endInValue
  | .wantFirstItem _ => .endInList
  | .wantFirstName _ => .endInObject
  | .wantName _ _ => .endInObject
  | .wantColon _ _ _ => .endInObject
  | .behind _ (.list _) _ => .endInList
  | .behind _ (.object _ _) _ => .endInObject

/-- A complete tree: the whole one, or a part of what is open. -/
def complete (outer : List JsonFrame) (value : Json) : Json ⊕ JsonState :=
  match outer with
  | [] => .inl value
  | inner :: outer => .inr (.behind value inner outer)

/-- Takes the first token of a tree. -/
def startValue (outer : List JsonFrame) : JsonToken → Except JsonFault (Json ⊕ JsonState)
  | .openList => .ok (.inr (.wantFirstItem outer))
  | .openObject => .ok (.inr (.wantFirstName outer))
  | .word (.ok value) => .ok (complete outer value)
  | .word (.error fault) => .error fault
  | .number start =>
      match JsonToken.takeNumber .invalidNumber start with
      | .ok (numeral, _) => .ok (complete outer (.number numeral))
      | .error fault => .error fault
  | .string start =>
      match Json.ofString start with
      | .ok value => .ok (complete outer value)
      | .error fault => .error fault
  | _ => .error .expectedValue

/-- Takes the name of a field. -/
def takeName (fields : List (Option String × Json)) (outer : List JsonFrame) :
    JsonToken → Except JsonFault (Json ⊕ JsonState)
  | .string start =>
      match JsonText.skip start with
      | .ok _ => .ok (.inr (.wantColon fields (JsonToken.stringText start).toOption outer))
      | .error fault => .error fault
  | _ => .error .keyMustBeString

/-- Takes one token: the tree is complete, or more may come. -/
def step : JsonState → JsonToken → Except JsonFault (Json ⊕ JsonState)
  | .wantValue outer, token => startValue outer token
  | .wantFirstItem outer, .closeList => .ok (complete outer (.array []))
  | .wantFirstItem outer, token => startValue (.list [] :: outer) token
  | .wantFirstName outer, .closeObject => .ok (complete outer (.object []))
  | .wantFirstName outer, token => takeName [] outer token
  | .wantName fields outer, token => takeName fields outer token
  | .wantColon fields name outer, .colon => .ok (.inr (.wantValue (.object fields name :: outer)))
  | .wantColon _ _ _, _ => .error .expectedColon
  | .behind value (.list items) outer, .comma =>
      .ok (.inr (.wantValue (.list (value :: items) :: outer)))
  | .behind value (.list items) outer, .closeList =>
      .ok (complete outer (.array (value :: items).reverse))
  | .behind _ (.list _) _, _ => .error .expectedListEnd
  | .behind value (.object fields name) outer, .comma =>
      .ok (.inr (.wantName ((name, value) :: fields) outer))
  | .behind value (.object fields name) outer, .closeObject =>
      .ok (complete outer (Json.ofFields ((name, value) :: fields).reverse))
  | .behind _ (.object _ _) _, _ => .error .expectedObjectEnd

end JsonState

namespace Json

/-- Reads one tree, and returns the tokens after it. -/
def run : JsonState → List JsonToken → Except JsonFault (Json × List JsonToken)
  | state, [] => .error state.atEnd
  | state, token :: tokens =>
      match state.step token with
      | .error fault => .error fault
      | .ok (.inl value) => .ok (value, tokens)
      | .ok (.inr next) => run next tokens

/-- Reads a text that is exactly one tree. -/
def parse (text : String) : Except JsonFault Json :=
  match run (.wantValue []) (JsonToken.ofText text.toList) with
  | .ok (value, []) => .ok value
  | .ok (_, _ :: _) => .error .trailingCharacters
  | .error fault => .error fault

end Json
end TaskTree
