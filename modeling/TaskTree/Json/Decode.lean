import TaskTree.Json.Basic

/-!
# Taking JSON trees apart

Decoders look into a tree only where they need to.  Nesting is limited: `room`
is the number of levels of lists and objects that may still be entered.  A
variant is written as an object with its tag under `type` and its payload under
`value`, or as the list of both.  A payload that comes before its tag has to be
held back until the tag is known, and what is held back is looked through as a
whole.  The tags of an object and of a list are read by rules of their own, which
admit more in what is held back.
-/

namespace TaskTree
namespace Json

/-- The number of levels of lists and objects in a text. -/
def nestingLimit : Nat := 127

mutual

/-- Whether a tree can be held back: all its numbers are in range, all its strings have a text,
and it needs no more levels than there is room for. -/
def fits (room : Nat) : Json → Bool
  | .number numeral => numeral.stepwise?.isSome
  | .array items => 1 ≤ room && itemsFit (room - 1) items
  | .object fields => 1 ≤ room && fieldsFit (room - 1) fields
  | .unpaired => false
  | _ => true

/-- Whether every item fits. -/
def itemsFit (room : Nat) : List Json → Bool
  | [] => true
  | item :: items => item.fits room && itemsFit room items

/-- Whether the value of every field fits. -/
def fieldsFit (room : Nat) : List (String × Json) → Bool
  | [] => true
  | (_, value) :: fields => value.fits room && fieldsFit room fields

end

/-- A tag and the payload that belongs to it. -/
structure Variant where
  tag : String
  payload : Option Json
  /-- Whether the payload was held back. -/
  held : Bool

/-- The tag of an object: a name, or an object with that one name and nothing under it.  In what
is held back an empty object counts as nothing too. -/
def fieldTag? (room : Nat) (held : Bool) : Json → Option String
  | .string name => some name
  | .object [(name, .null)] => if 1 ≤ room then some name else none
  | .object [(name, .object [])] => if held && 1 ≤ room then some name else none
  | _ => none

/-- The tag of a list: a name.  In what is held back it may also be the place of the name among
all tags, counted from zero. -/
def itemTag? (tags : List String) (held : Bool) : Json → Option String
  | .string name => some name
  | .number place =>
      if held && place.isInteger && !place.negative then tags[digitsValue place.whole]? else none
  | _ => none

/-- Whether a name is one of the two that make a variant. -/
def isVariantName (field : String × Json) : Bool :=
  field.1 == "type" || field.1 == "value"

/-- A variant with one of the given tags, within the level of its object or list. -/
def variant? (tags : List String) (room : Nat) (held : Bool) : Json → Option Variant
  | .object fields =>
      match fields.filter isVariantName with
      | [("type", tag)] => do
          pure { tag := ← fieldTag? room held tag, payload := none, held }
      | [("type", tag), ("value", payload)] => do
          pure { tag := ← fieldTag? room held tag, payload := some payload, held }
      | [("value", payload), ("type", tag)] => do
          guard (held || payload.fits room)
          pure { tag := ← fieldTag? room held tag, payload := some payload, held := true }
      | _ => none
  | .array [tag, payload] => do
      pure { tag := ← itemTag? tags held tag, payload := some payload, held }
  | _ => none

/-- The values of the fields with the given names, each at most once; other fields do not matter.
A list of as many items stands for the same. -/
def record? (names : List String) : Json → Option (List (Option Json))
  | .object fields =>
      names.mapM fun name =>
        match fields.filter fun field => field.1 == name with
        | [] => some none
        | [(_, value)] => some (some value)
        | _ => none
  | .array items => if items.length = names.length then some (items.map some) else none
  | _ => none

/-- What a decoder finds one level further in. -/
def within {α : Type} (room : Nat) (decode : Json → Option α) (json : Json) : Option α :=
  if 1 ≤ room then decode json else none

/-- The decoded items of a list. -/
def items? {α : Type} (decode : Json → Option α) : Json → Option (List α)
  | .array items => items.mapM decode
  | _ => none

/-- An optional part: missing, `null`, or decoded. -/
def optional? {α : Type} (decode : Json → Option α) : Option Json → Option (Option α)
  | none => some none
  | some .null => some none
  | some json => (decode json).map some

end Json
end TaskTree
