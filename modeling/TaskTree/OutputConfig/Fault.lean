import TaskTree.Debug.Quoted
import TaskTree.Json.Basic
import TaskTree.Json.Fault

/-!
# What can be wrong with a configuration
-/

namespace TaskTree

/-- What a configuration text holds in the place of something else. -/
inductive Found where
  | null
  | boolean (flag : Bool)
  | integer (number : Int)
  | float (number : Float)
  | string (text : String)
  | list
  | object

/-- What a configuration text has to hold. -/
inductive Expected where
  | config
  | boolean
  | formatName
  | nothing
deriving DecidableEq, Repr

/-- Why a text is not a configuration. -/
inductive ConfigFault where
  | json (fault : JsonFault)
  | wrongType (found : Found) (expected : Expected)
  | unknownFormat (name : String)
  | duplicateField (name : String)

/-- The text of a floating-point number within a message. -/
def Found.floatText (x : Float) : String :=
  String.ofList ((Numeral.ofFloat Json.numbers x).text Json.numbers.plus)

/-- The description of what was found. -/
def Found.message : Found → String
  | .null => "null"
  | .boolean true => "boolean `true`"
  | .boolean false => "boolean `false`"
  | .integer number => "integer `" ++ String.ofList (integerText number) ++ "`"
  | .float number => "floating point `" ++ Found.floatText number ++ "`"
  | .string text => "string " ++ String.ofList (Debug.quoted text)
  | .list => "sequence"
  | .object => "map"

/-- The description of what was expected. -/
def Expected.message : Expected → String
  | .config => "struct OutputConfig"
  | .boolean => "a boolean"
  | .formatName => "variant identifier"
  | .nothing => "unit"

/-- The description of a fault. -/
def ConfigFault.message : ConfigFault → String
  | .json fault => fault.message
  | .wrongType found expected =>
      "invalid type: " ++ found.message ++ ", expected " ++ expected.message
  | .unknownFormat name =>
      "unknown variant `" ++ name ++ "`, expected one of `json`, `debug`, `sexpr`"
  | .duplicateField name => "duplicate field `" ++ name ++ "`"

end TaskTree
