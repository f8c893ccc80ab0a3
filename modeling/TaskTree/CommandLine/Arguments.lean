import TaskTree.Files
import TaskTree.OutputConfig.Basic

/-!
# Command-line arguments

Options come before the command, and each at most once.  The value of an option
follows it as an argument of its own or is attached to it; as an argument of its
own it may not look like an option.  A command has one input, behind which only
the mark `--` may come; behind that mark nothing is an option.
-/

namespace TaskTree
namespace CommandLine

/-- What is to be done with the input. -/
inductive Command where
  /-- Writes the program of every form. -/
  | parse
  /-- Says of every form whether it is a program. -/
  | check
  /-- Writes the value of every form. -/
  | read
deriving DecidableEq, Repr

/-- The command of the given name. -/
def Command.ofName? : String → Option Command
  | "parse" => some .parse
  | "check" => some .check
  | "read" => some .read
  | _ => none

/-- The options that were given. -/
structure Options where
  config : Option String
  format : Option OutputFormat
  compact : Bool
deriving DecidableEq, Repr

/-- What the arguments ask for. -/
structure Invocation where
  options : Options
  command : Command
  input : String
deriving DecidableEq, Repr

/-- Whether an argument looks like an option.  A hyphen alone does not. -/
def looksLikeOption (arg : String) : Bool :=
  match arg.toList with
  | '-' :: _ :: _ => true
  | _ => false

/-- No options. -/
def Options.unset : Options where
  config := none
  format := none
  compact := false

/-- Sets the path of a configuration. -/
def Options.withConfig? (options : Options) (path : String) : Option Options :=
  if options.config.isSome ∨ path.isEmpty then none
  else some { options with config := some path }

/-- Sets the format of the given name. -/
def Options.withFormat? (options : Options) (name : String) : Option Options :=
  match options.format, OutputFormat.ofName? name with
  | none, some format => some { options with format := some format }
  | _, _ => none

/-- Asks for one line for each form. -/
def Options.withCompact? (options : Options) : Option Options :=
  if options.compact then none else some { options with compact := true }

/-- What follows the given characters at the start of a text. -/
def behind? : List Char → List Char → Option (List Char)
  | [], s => some s
  | c :: mark, d :: s => if c = d then behind? mark s else none
  | _ :: _, [] => none

/-- An option with its value attached: a long name with an equals sign, or the short name with or
without one. -/
def Options.withAttached? (options : Options) (arg : String) : Option Options :=
  match behind? "--config=".toList arg.toList with
  | some path => options.withConfig? (String.ofList path)
  | none =>
      match behind? "--format=".toList arg.toList with
      | some name => options.withFormat? (String.ofList name)
      | none =>
          match behind? "-f".toList arg.toList with
          | some ('=' :: name) => options.withFormat? (String.ofList name)
          | some name => options.withFormat? (String.ofList name)
          | none => none

/-- The options, the command and the arguments after it. -/
def parseOptions? (options : Options) : List String → Option (Options × Command × List String)
  | [] => none
  | arg :: args =>
      if arg = "--compact" then do
        parseOptions? (← options.withCompact?) args
      else if arg = "--config" ∨ arg = "--format" ∨ arg = "-f" then
        match args with
        | [] => none
        | value :: args =>
            if looksLikeOption value then none
            else do
              let options ←
                if arg = "--config" then options.withConfig? value
                else options.withFormat? value
              parseOptions? options args
      else if looksLikeOption arg then do
        parseOptions? (← options.withAttached? arg) args
      else do
        pure (options, ← Command.ofName? arg, args)

/-- The input among the arguments of a command. -/
def parseInput? (args : List String) : Option String :=
  let before := args.takeWhile (· ≠ "--")
  let after := (args.dropWhile (· ≠ "--")).drop 1
  if before.any looksLikeOption then none
  else
    match before ++ after with
    | [input] => if input.isEmpty then none else some input
    | _ => none

/-- What the arguments ask for, if they are used as they have to be. -/
def Invocation.ofArgs? (args : List String) : Option Invocation := do
  let (options, command, args) ← parseOptions? Options.unset args
  let input ← parseInput? args
  pure { options, command, input }

/-- Whether an input is a hyphen, which stands for standard input.  Slashes and dots behind it do
not matter. -/
def isStandardInput (input : String) : Bool :=
  match pathParts input with
  | first :: parts => first == "-" && parts.all isIdlePart
  | [] => false

end CommandLine
end TaskTree
