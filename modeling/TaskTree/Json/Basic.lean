import TaskTree.Decimal.Rounding
import TaskTree.Decimal.Style

/-!
# JSON trees

A JSON text denotes a tree.  Numbers are kept as they are written, and an object
keeps its fields in order, repeated names included.
-/

namespace TaskTree

/-- A JSON tree. -/
inductive Json where
  | null
  | bool (flag : Bool)
  | number (numeral : Numeral)
  | string (text : String)
  | array (items : List Json)
  | object (fields : List (String × Json))
  /-- A string with an unpaired surrogate, or an object with such a name: it is JSON by its
  grammar, but has no text. -/
  | unpaired
deriving Inhabited

namespace Json

/-- In JSON a number is written without a power of ten from `10 ^ -5` up to `10 ^ 16`, every
exponent has its sign, and of two equally near decimals the even one is taken. -/
def numbers : NumberStyle where
  plainFrom := -5
  plainBelow := 16
  plus := true
  tie := .toEven

/-- The number of a floating-point number; what is not finite becomes `null`. -/
def ofFloat (x : Float) : Json :=
  if x.isNaN || x.isInf then .null else .number (Numeral.ofFloat numbers x)

/-- The number of an integer. -/
def ofInt (i : Int) : Json :=
  .number (Numeral.ofInt i)

/-- `null` in place of a missing value. -/
def ofOption {α : Type} (encode : α → Json) : Option α → Json
  | none => .null
  | some a => encode a

/-- The integer of 64 bits that a numeral stands for, if it is written as one.  A minus sign
before a zero is not. -/
def integer? (n : Numeral) : Option Int64 :=
  if n.isInteger ∧ ¬ (n.negative ∧ n.wholeValue = 0) then int64? n.wholeValue else none

end Json
end TaskTree
