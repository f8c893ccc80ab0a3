/-!
# Values

A value is the data that a source text denotes before it is understood as a
program: atoms, lists, vectors and maps.  A map keeps its entries in the order
in which their keys were first inserted.
-/

namespace TaskTree

/-- Data as it is written in a source text. -/
inductive Value where
  | nil
  | boolean (flag : Bool)
  | integer (number : Int64)
  | float (number : Float)
  | string (text : String)
  | symbol (name : String)
  | keyword (name : String)
  | list (items : List Value)
  | vector (items : List Value)
  | map (entries : List (Value × Value))
deriving Inhabited

/-- The entries of a map, in insertion order. -/
abbrev Entries := List (Value × Value)

namespace Value

/-- The name of a symbol. -/
def symbolName? : Value → Option String
  | .symbol name => some name
  | _ => none

/-- The name of a keyword, without its colon. -/
def keywordName? : Value → Option String
  | .keyword name => some name
  | _ => none

/-- The text of a string. -/
def stringText? : Value → Option String
  | .string text => some text
  | _ => none

/-- The items of a vector. -/
def vectorItems? : Value → Option (List Value)
  | .vector items => some items
  | _ => none

/-- Whether a value is the keyword of the given name. -/
def isKeyword (value : Value) (name : String) : Bool :=
  value.keywordName? == some name

/-- The name of a value's shape. -/
def typeName : Value → String
  | .nil => "nil"
  | .boolean _ => "boolean"
  | .integer _ => "integer"
  | .float _ => "float"
  | .string _ => "string"
  | .symbol _ => "symbol"
  | .keyword _ => "keyword"
  | .list _ => "list"
  | .vector _ => "vector"
  | .map _ => "map"

/-- Only the keyword itself is that keyword. -/
theorem isKeyword_iff
    {value : Value} {name : String} :
    value.isKeyword name = true ↔ value = .keyword name := by
  cases value <;> simp [isKeyword, keywordName?]

end Value
end TaskTree
