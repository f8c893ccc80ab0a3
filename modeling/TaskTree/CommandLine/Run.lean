import TaskTree.CommandLine.Arguments
import TaskTree.Program
import TaskTree.Render

/-!
# Running a command

`CommandLine.run` is the whole program as a function: from the arguments,
standard input and the files to the exit code and both outputs.
-/

namespace TaskTree
namespace CommandLine

/-- What a run can see. -/
structure Surroundings where
  files : Files
  standardInput : ByteArray

/-- What a run leaves behind. -/
structure Outcome where
  code : Nat
  output : String
  errors : String
deriving DecidableEq, Repr

/-- Why a command failed: a message, and the message that it goes back to. -/
structure Failure where
  message : String
  cause : Option String
deriving DecidableEq, Repr

namespace Failure

/-- The failure of an error. -/
def ofError (error : Error) : Failure where
  message := error.message
  cause := error.cause?

/-- A failure while an input was read. -/
def reading (input cause : String) : Failure where
  message := "reading " ++ input
  cause := some cause

/-- A text whose lines behind the first are indented. -/
def indented : List Char → List Char
  | [] => []
  | '\n' :: s => '\n' :: ' ' :: ' ' :: ' ' :: ' ' :: indented s
  | c :: s => c :: indented s

/-- The report of a failure. -/
def report (failure : Failure) : String :=
  "Error: " ++ failure.message ++ "\n"
    ++ match failure.cause with
       | none => ""
       | some cause => "\nCaused by:\n    " ++ String.ofList (indented cause.toList) ++ "\n"

end Failure

/-- The configuration in force: that of the file or the standard one, changed by the options. -/
def Options.effective (options : Options) (files : Files) : Except Failure OutputConfig := do
  let config ←
    match options.config with
    | none => pure OutputConfig.standard
    | some path => (OutputConfig.ofFile files path).mapError Failure.ofError
  return {
    format := options.format.getD config.format
    pretty := config.pretty && !options.compact }

/-- The text of an input. -/
def loadInput (surroundings : Surroundings) (input : String) : Except Failure String :=
  if isStandardInput input then
    (textOfBytes surroundings.standardInput).mapError fun fault =>
      Failure.reading "stdin" fault.message
  else
    (surroundings.files.load input).mapError fun fault => Failure.reading input fault.message

/-- The values of an input. -/
def readInput (input source : String) : Except Failure (List Value) :=
  (Value.readAll source).mapError fun error => Failure.reading input error.message

/-- What is wrong with a form, if it is no program. -/
def complaint? (form : Value) : Option ParseError :=
  match Node.ofValue form with
  | .ok _ => none
  | .error error => some error

/-- The line of a form in the report of a check. -/
def checkLine (number : Nat) (form : Value) : String :=
  "form " ++ toString number ++ ": "
    ++ match complaint? form with
       | none => "ok"
       | some error => error.message

/-- The lines of forms in the report of a check, numbered from the given number on. -/
def checkLines : Nat → List Value → List String
  | _, [] => []
  | number, form :: forms => checkLine number form :: checkLines (number + 1) forms

/-- The failure of a check, if there is a form that is no program. -/
def checkFailure? (forms : List Value) : Option Failure :=
  let failed := (forms.filter fun form => (complaint? form).isSome).length
  if failed = 0 then none
  else
    some
      { message :=
          toString failed ++ " of " ++ toString forms.length ++ " forms failed to parse"
        cause := none }

/-- The lines that a command writes, and its failure if it has one.  A failure that precedes all
output stands alone. -/
def perform (surroundings : Surroundings) (invocation : Invocation) :
    Except Failure (List String × Option Failure) := do
  let config ← invocation.options.effective surroundings.files
  let source ← loadInput surroundings invocation.input
  match invocation.command with
  | .parse => do
      let nodes ← (Node.parseAll source).mapError Failure.ofError
      return (nodes.map (Node.render config), none)
  | .check => do
      let forms ← readInput invocation.input source
      return (checkLines 1 forms, checkFailure? forms)
  | .read => do
      let forms ← readInput invocation.input source
      return (forms.map (Value.render config), none)

/-- Lines as text, each with its end. -/
def textOfLines (lines : List String) : String :=
  String.join (lines.map (· ++ "\n"))

/-- How the program is used. -/
def usage : String :=
  "usage: [--config PATH] [-f json|debug|sexpr] [--compact] parse|check|read INPUT\n"

/-- Runs the program.  Arguments that are not used as they have to be give the exit code 2, a
failure gives 1. -/
def run (surroundings : Surroundings) (args : List String) : Outcome :=
  match Invocation.ofArgs? args with
  | none => { code := 2, output := "", errors := usage }
  | some invocation =>
      match perform surroundings invocation with
      | .ok (lines, none) => { code := 0, output := textOfLines lines, errors := "" }
      | .ok (lines, some failure) =>
          { code := 1, output := textOfLines lines, errors := failure.report }
      | .error failure => { code := 1, output := "", errors := failure.report }

end CommandLine
end TaskTree
