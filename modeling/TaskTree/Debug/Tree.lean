/-!
# Debugging output

Debugging output shows how a value is built: a name with its parts between
brackets.  It has two layouts, one on a single line and one with a line for
every part, indented by four blanks for each level and closed by a comma.
-/

namespace TaskTree
namespace Debug

/-- What debugging output shows. -/
inductive Tree where
  | leaf (text : List Char)
  | list (items : List Tree)
  | tuple (name : List Char) (parts : List Tree)
  | record (name : List Char) (fields : List (List Char × Tree))

namespace Tree

mutual

/-- The output on one line. -/
def line : Tree → List Char
  | .leaf text => text
  | .list items => '[' :: (lineParts items ++ [']'])
  | .tuple name parts => name ++ '(' :: (lineParts parts ++ [')'])
  | .record name fields => name ++ ' ' :: '{' :: ' ' :: (lineFields fields ++ [' ', '}'])

/-- Parts on one line. -/
def lineParts : List Tree → List Char
  | [] => []
  | [part] => part.line
  | part :: parts => part.line ++ ',' :: ' ' :: lineParts parts

/-- Named parts on one line. -/
def lineFields : List (List Char × Tree) → List Char
  | [] => []
  | [(name, part)] => name ++ ':' :: ' ' :: part.line
  | (name, part) :: fields => name ++ ':' :: ' ' :: (part.line ++ ',' :: ' ' :: lineFields fields)

end

/-- The blanks at the start of a line. -/
def indent (depth : Nat) : List Char :=
  List.replicate (4 * depth) ' '

mutual

/-- The output at a depth, with a line for every part. -/
def block (depth : Nat) : Tree → List Char
  | .leaf text => text
  | .list [] => ['[', ']']
  | .list (item :: items) =>
      '[' :: '\n' :: (blockParts (depth + 1) (item :: items) ++ indent depth ++ [']'])
  | .tuple name parts =>
      name ++ '(' :: '\n' :: (blockParts (depth + 1) parts ++ indent depth ++ [')'])
  | .record name fields =>
      name ++ ' ' :: '{' :: '\n' :: (blockFields (depth + 1) fields ++ indent depth ++ ['}'])

/-- The lines of parts. -/
def blockParts (depth : Nat) : List Tree → List Char
  | [] => []
  | part :: parts => indent depth ++ block depth part ++ ',' :: '\n' :: blockParts depth parts

/-- The lines of named parts. -/
def blockFields (depth : Nat) : List (List Char × Tree) → List Char
  | [] => []
  | (name, part) :: fields =>
      indent depth ++ name ++ ':' :: ' ' :: block depth part
        ++ ',' :: '\n' :: blockFields depth fields

end

/-- The output in one of the two layouts. -/
def written (pretty : Bool) (tree : Tree) : String :=
  String.ofList (if pretty then tree.block 0 else tree.line)

/-- A name with one part. -/
def apply (name : String) (part : Tree) : Tree :=
  .tuple name.toList [part]

/-- A name with named parts. -/
def named (name : String) (fields : List (String × Tree)) : Tree :=
  .record name.toList (fields.map fun field => (field.1.toList, field.2))

/-- A part that may be missing. -/
def optional {α : Type} (build : α → Tree) : Option α → Tree
  | none => .leaf ['N', 'o', 'n', 'e']
  | some a => apply "Some" (build a)

end Tree
end Debug
end TaskTree
