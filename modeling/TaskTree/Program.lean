import TaskTree.Error
import TaskTree.Node.OfValue
import TaskTree.OutputConfig.Parse
import TaskTree.Source.Forms

/-!
# Programs from texts and files

A text is read into values, and these are understood as programs.  What cannot
be read anywhere in a text comes before what cannot be understood.
-/

namespace TaskTree

/-- The version of the notation and of its tools. -/
def version : String := "0.1.0"

namespace Node

/-- The program of a text that holds exactly one form. -/
def parse (source : String) : Except Error Node := do
  let value ← (Value.read source).mapError (Error.read source)
  (Node.ofValue value).mapError (Error.parse source)

/-- The programs of all forms of a text. -/
def parseAll (source : String) : Except Error (List Node) := do
  let values ← (Value.readAll source).mapError (Error.read source)
  (Node.ofValues values).mapError (Error.parse source)

/-- The programs of all forms of a file. -/
def parseFile (files : Files) (path : String) : Except Error (List Node) := do
  let source ← (files.load path).mapError (Error.load path)
  parseAll source

end Node

namespace OutputConfig

/-- The configuration of a text. -/
def ofText (text : String) : Except Error OutputConfig :=
  (OutputConfig.parse text).mapError Error.config

/-- The configuration of a file. -/
def ofFile (files : Files) (path : String) : Except Error OutputConfig := do
  let text ← (files.load path).mapError (Error.load path)
  ofText text

end OutputConfig
end TaskTree
