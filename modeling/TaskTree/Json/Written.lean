import TaskTree.Json.Basic
import TaskTree.Json.Text

/-!
# JSON trees written as text

There are two layouts.  The compact one has no blanks.  The spread one gives
every item and field a line of its own, indented by two blanks for each level,
but leaves an empty list or object on one line.
-/

namespace TaskTree
namespace Json

mutual

/-- The text of a tree without blanks. -/
def compact : Json → List Char
  | .null => ['n', 'u', 'l', 'l']
  | .bool true => ['t', 'r', 'u', 'e']
  | .bool false => ['f', 'a', 'l', 's', 'e']
  | .number numeral => numeral.text numbers.plus
  | .string text => JsonText.encode text.toList
  | .array items => '[' :: (compactItems items ++ [']'])
  | .object fields => '{' :: (compactFields fields ++ ['}'])
  | .unpaired => ['n', 'u', 'l', 'l']

/-- The texts of items, separated by commas. -/
def compactItems : List Json → List Char
  | [] => []
  | [item] => item.compact
  | item :: items => item.compact ++ ',' :: compactItems items

/-- The texts of fields, separated by commas. -/
def compactFields : List (String × Json) → List Char
  | [] => []
  | [(name, value)] => JsonText.encode name.toList ++ ':' :: value.compact
  | (name, value) :: fields =>
      JsonText.encode name.toList ++ ':' :: (value.compact ++ ',' :: compactFields fields)

end

/-- A new line, indented to a depth. -/
def newLine (depth : Nat) : List Char :=
  '\n' :: List.replicate (2 * depth) ' '

mutual

/-- The text of a tree at a depth, one line for each item and field. -/
def spread (depth : Nat) : Json → List Char
  | .array [] => ['[', ']']
  | .array (item :: items) =>
      '[' :: (spreadItems (depth + 1) (item :: items) ++ newLine depth ++ [']'])
  | .object [] => ['{', '}']
  | .object (field :: fields) =>
      '{' :: (spreadFields (depth + 1) (field :: fields) ++ newLine depth ++ ['}'])
  | scalar => scalar.compact

/-- The lines of items at a depth. -/
def spreadItems (depth : Nat) : List Json → List Char
  | [] => []
  | [item] => newLine depth ++ spread depth item
  | item :: items => newLine depth ++ spread depth item ++ ',' :: spreadItems depth items

/-- The lines of fields at a depth. -/
def spreadFields (depth : Nat) : List (String × Json) → List Char
  | [] => []
  | [(name, value)] =>
      newLine depth ++ JsonText.encode name.toList ++ ':' :: ' ' :: spread depth value
  | (name, value) :: fields =>
      newLine depth ++ JsonText.encode name.toList ++ ':' :: ' ' :: spread depth value
        ++ ',' :: spreadFields depth fields

end

/-- The text of a tree in one of the two layouts. -/
def written (pretty : Bool) (json : Json) : String :=
  String.ofList (if pretty then spread 0 json else compact json)

end Json
end TaskTree
