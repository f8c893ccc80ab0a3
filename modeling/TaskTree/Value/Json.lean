import TaskTree.Json.Decode
import TaskTree.Value.Basic

/-!
# Values as JSON

A value is a variant whose tag names its shape.  A map is the list of its
entries, each a list of key and value; repeated keys stay as they are.
-/

namespace TaskTree

/-- A variant with a payload. -/
def Json.ofVariant (tag : String) (payload : Json) : Json :=
  .object [("type", .string tag), ("value", payload)]

/-- The tags of values. -/
def Value.tags : List String :=
  ["Nil", "Boolean", "Integer", "Float", "String", "Symbol", "Keyword", "List", "Vector", "Map"]

mutual

/-- The tree of a value. -/
def Value.toJson : Value → Json
  | .nil => .object [("type", .string "Nil")]
  | .boolean flag => .ofVariant "Boolean" (.bool flag)
  | .integer number => .ofVariant "Integer" (.ofInt number.toInt)
  | .float number => .ofVariant "Float" (.ofFloat number)
  | .string text => .ofVariant "String" (.string text)
  | .symbol name => .ofVariant "Symbol" (.string name)
  | .keyword name => .ofVariant "Keyword" (.string name)
  | .list items => .ofVariant "List" (.array (Value.itemsToJson items))
  | .vector items => .ofVariant "Vector" (.array (Value.itemsToJson items))
  | .map entries => .ofVariant "Map" (.array (Value.entriesToJson entries))

/-- The trees of some values. -/
def Value.itemsToJson : List Value → List Json
  | [] => []
  | item :: items => item.toJson :: Value.itemsToJson items

/-- The trees of some entries. -/
def Value.entriesToJson : List (Value × Value) → List Json
  | [] => []
  | (key, value) :: entries =>
      .array [key.toJson, value.toJson] :: Value.entriesToJson entries

end

/-- An entry of a map, within the level of its list. -/
def Value.entryOfJson? (decode : Json → Option Value) : Json → Option (Value × Value)
  | .array [key, value] => do
      let key ← decode key
      let value ← decode value
      pure (key, value)
  | _ => none

/-- The value of a tree, which takes one level itself. -/
def Value.ofJson? : (room : Nat) → (held : Bool) → Json → Option Value
  | 0, _, _ => none
  | room + 1, held, json => do
      let variant ← json.variant? Value.tags room held
      let item := Value.ofJson? (room - 1) variant.held
      let entry := Value.entryOfJson? (Value.ofJson? (room - 2) variant.held)
      match variant.tag, variant.payload with
      | "Nil", none => some .nil
      | "Nil", some .null => some .nil
      | "Boolean", some (.bool flag) => some (.boolean flag)
      | "Integer", some (.number numeral) => (Json.integer? numeral).map .integer
      | "Float", some (.number numeral) => numeral.stepwise?.map .float
      | "String", some (.string text) => some (.string text)
      | "Symbol", some (.string name) => some (.symbol name)
      | "Keyword", some (.string name) => some (.keyword name)
      | "List", some payload => (Json.within room (Json.items? item) payload).map .list
      | "Vector", some payload => (Json.within room (Json.items? item) payload).map .vector
      | "Map", some payload =>
          (Json.within room (Json.items? (Json.within (room - 1) entry)) payload).map .map
      | _, _ => none
termination_by room => room

/-- The value of a whole tree. -/
def Value.decode? (json : Json) : Option Value :=
  Value.ofJson? Json.nestingLimit false json

end TaskTree
