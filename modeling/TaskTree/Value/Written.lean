import TaskTree.Decimal.Style
import TaskTree.Source.Quoted
import TaskTree.Value.Basic

/-!
# Values written as source text

`Value.chars` is the text of a value in the notation that the reader accepts:
items are separated by one blank, a map lists its keys and values in turn, and a
floating-point number always shows a point or a power of ten.
-/

namespace TaskTree

/-- In source text a number is written without a power of ten from `10 ^ -4` up to `10 ^ 16`, no
plus sign precedes an exponent, and the upper one of two equally near decimals is taken. -/
def sourceNumbers : NumberStyle where
  plainFrom := -4
  plainBelow := 16
  plus := false
  tie := .upward

/-- The text of a floating-point number in source text. -/
def floatText (x : Float) : List Char :=
  if x.isNaN then ['N', 'a', 'N']
  else if x.isInf then if x < 0 then ['-', 'i', 'n', 'f'] else ['i', 'n', 'f']
  else (Numeral.ofFloat sourceNumbers x).text sourceNumbers.plus

mutual

/-- The text of a value. -/
def Value.chars : Value → List Char
  | .nil => ['n', 'i', 'l']
  | .boolean true => ['t', 'r', 'u', 'e']
  | .boolean false => ['f', 'a', 'l', 's', 'e']
  | .integer number => integerText number.toInt
  | .float number => floatText number
  | .string text => Quoted.encode text.toList
  | .symbol name => name.toList
  | .keyword name => ':' :: name.toList
  | .list items => '(' :: (Value.itemChars items ++ [')'])
  | .vector items => '[' :: (Value.itemChars items ++ [']'])
  | .map entries => '{' :: (Value.entryChars entries ++ ['}'])

/-- The texts of some values, separated by blanks. -/
def Value.itemChars : List Value → List Char
  | [] => []
  | [item] => item.chars
  | item :: items => item.chars ++ ' ' :: Value.itemChars items

/-- The texts of keys and values in turn, separated by blanks. -/
def Value.entryChars : List (Value × Value) → List Char
  | [] => []
  | [(key, value)] => key.chars ++ ' ' :: value.chars
  | (key, value) :: entries =>
      key.chars ++ ' ' :: (value.chars ++ ' ' :: Value.entryChars entries)

end

/-- A value as source text. -/
def Value.written (value : Value) : String :=
  String.ofList value.chars

end TaskTree
