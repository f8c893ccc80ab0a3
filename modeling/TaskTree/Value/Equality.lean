import TaskTree.Value.Basic

/-!
# Equality of values

Two values are equal when they have the same shape and equal parts, where
numbers of the floating-point format are compared as numbers and the order of a
map's entries does not matter.  A map equals another of the same length when
every entry of the first is stored in the second: under the first key of the
second that equals it, an equal value is found.
-/

namespace TaskTree

mutual

/-- Whether two values are equal. -/
def Value.equals : Value → Value → Bool
  | .nil, .nil => true
  | .boolean a, .boolean b => a == b
  | .integer a, .integer b => a == b
  | .float a, .float b => a == b
  | .string a, .string b => a == b
  | .symbol a, .symbol b => a == b
  | .keyword a, .keyword b => a == b
  | .list a, .list b => Value.itemsEqual a b
  | .vector a, .vector b => Value.itemsEqual a b
  | .map a, .map b => a.length == b.length && Value.storedIn b a
  | _, _ => false
termination_by a b => sizeOf a + sizeOf b

/-- Whether two sequences have the same length and equal items. -/
def Value.itemsEqual : List Value → List Value → Bool
  | [], [] => true
  | a :: as, b :: bs => a.equals b && Value.itemsEqual as bs
  | _, _ => false
termination_by as bs => sizeOf as + sizeOf bs

/-- Whether every one of some entries is found in a map. -/
def Value.storedIn (store : Entries) : Entries → Bool
  | [] => true
  | (key, value) :: entries => Value.finds store key value && Value.storedIn store entries
termination_by entries => sizeOf store + sizeOf entries

/-- Whether the first entry of a map under an equal key has an equal value. -/
def Value.finds : Entries → Value → Value → Bool
  | [], _, _ => false
  | (key', value') :: store, key, value =>
      if key'.equals key then value'.equals value else Value.finds store key value
termination_by store key value => sizeOf store + sizeOf key + sizeOf value

end

instance : BEq Value :=
  ⟨Value.equals⟩

namespace Entries

/-- Stores a value under a key.  An entry under an equal key keeps its place and its key. -/
def insert : Entries → Value → Value → Entries
  | [], key, value => [(key, value)]
  | (key', value') :: entries, key, value =>
      if key' == key then (key', value) :: entries
      else (key', value') :: insert entries key value

/-- The value of the first entry under an equal key. -/
def get? : Entries → Value → Option Value
  | [], _ => none
  | (key', value') :: entries, key =>
      if key' == key then some value' else get? entries key

/-- The value of the first entry whose key is the keyword of the given name. -/
def keyword? : Entries → String → Option Value
  | [], _ => none
  | (key, value) :: entries, name =>
      if key.isKeyword name then some value else keyword? entries name

/-- Whether a keyword is among the keys. -/
def hasKeyword (entries : Entries) (name : String) : Bool :=
  (entries.keyword? name).isSome

/-- The map that results from storing the given entries one after the other. -/
def ofList (entries : List (Value × Value)) : Entries :=
  entries.foldl (fun stored entry => insert stored entry.1 entry.2) []

/-- Whether two maps are equal. -/
def equals (a b : Entries) : Bool :=
  Value.map a == Value.map b

end Entries
end TaskTree
