import TaskTree.Debug.Quoted
import TaskTree.Debug.Tree
import TaskTree.Value.Written

/-!
# Values in debugging output
-/

namespace TaskTree

/-- A name with a string as its part. -/
def Debug.Tree.ofText (name text : String) : Debug.Tree :=
  .apply name (.leaf (Debug.quoted text))

mutual

/-- How a value is built. -/
def Value.debugTree : Value → Debug.Tree
  | .nil => .leaf ['N', 'i', 'l']
  | .boolean flag => .apply "Boolean" (.leaf (Value.boolean flag).chars)
  | .integer number => .apply "Integer" (.leaf (integerText number.toInt))
  | .float number => .apply "Float" (.leaf (floatText number))
  | .string text => .ofText "String" text
  | .symbol name => .ofText "Symbol" name
  | .keyword name => .ofText "Keyword" name
  | .list items => .apply "List" (.list (Value.debugTrees items))
  | .vector items => .apply "Vector" (.list (Value.debugTrees items))
  | .map entries => .apply "Map" (.apply "ValueMap" (.list (Value.debugEntries entries)))

/-- How some values are built. -/
def Value.debugTrees : List Value → List Debug.Tree
  | [] => []
  | item :: items => item.debugTree :: Value.debugTrees items

/-- How some entries are built: each is a pair without a name. -/
def Value.debugEntries : List (Value × Value) → List Debug.Tree
  | [] => []
  | (key, value) :: entries =>
      .tuple [] [key.debugTree, value.debugTree] :: Value.debugEntries entries

end
end TaskTree
