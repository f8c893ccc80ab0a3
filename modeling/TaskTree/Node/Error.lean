import TaskTree.SpecialForm
import TaskTree.Value.Written

/-!
# Why a value is no program

A value that cannot be understood as a program is refused for one of four
reasons, together with the part of it that is at fault.
-/

namespace TaskTree

/-- Why a value cannot be understood as a program or a log entry. -/
inductive ParseFault where
  /-- A list without an operator. -/
  | emptyList
  /-- A value that stands for nothing. -/
  | unparseable
  /-- A special form with other arguments than it requires. -/
  | invalidForm (form : SpecialForm)
  /-- A log entry whose time is not written as required. -/
  | invalidTimestamp
deriving DecidableEq, Repr

/-- The description of a fault. -/
def ParseFault.name : ParseFault → String
  | .emptyList => "empty-list"
  | .unparseable => "unparseable"
  | .invalidForm form => form.expectedShape
  | .invalidTimestamp => ":timestamp must be an RFC 3339 string"

/-- The special form at fault, if it is one. -/
def ParseFault.form? : ParseFault → Option SpecialForm
  | .invalidForm form => some form
  | _ => none

/-- A fault, and the value at fault. -/
structure ParseError where
  fault : ParseFault
  fragment : Value

/-- The description of an error with the text of the value at fault. -/
def ParseError.message (error : ParseError) : String :=
  error.fault.name ++ ": " ++ error.fragment.written

end TaskTree
