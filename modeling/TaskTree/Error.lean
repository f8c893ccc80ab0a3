import TaskTree.Debug.Quoted
import TaskTree.Files
import TaskTree.Node.Error
import TaskTree.OutputConfig.Fault

/-!
# Errors

What can go wrong between a text and its program.  An error over a text carries
that text.
-/

namespace TaskTree

/-- What went wrong. -/
inductive Error where
  /-- The input is no sequence of values. -/
  | read (input : String) (error : ReadError)
  /-- The values of the input are no program. -/
  | parse (input : String) (error : ParseError)
  /-- There is no text under the path. -/
  | load (path : String) (fault : LoadFault)
  /-- A text is no configuration. -/
  | config (fault : ConfigFault)

namespace Error

/-- The description of an error. -/
def message : Error → String
  | .read input error =>
      "failed to read " ++ String.ofList (Debug.quoted input) ++ ": " ++ error.message
  | .parse input error =>
      "failed to parse " ++ String.ofList (Debug.quoted input) ++ ": " ++ error.message
  | .load path fault => "failed to load " ++ path ++ ": " ++ fault.message
  | .config fault => "Configuration error: " ++ fault.message

/-- The text over which an error arose. -/
def input? : Error → Option String
  | .read input _ => some input
  | .parse input _ => some input
  | _ => none

/-- The description of what an error goes back to. -/
def cause? : Error → Option String
  | .read _ error => some error.message
  | .parse _ error => some error.message
  | .load _ fault => some fault.message
  | .config _ => none

end Error
end TaskTree
