import TaskTree.Debug.Tree
import TaskTree.Json.Written

/-!
# Output configuration

How values and nodes are written out: in which format, and on how many lines.
-/

namespace TaskTree

/-- The formats in which values and nodes are written out. -/
inductive OutputFormat where
  | json
  | debug
  | sexpr
deriving DecidableEq, Repr

namespace OutputFormat

/-- Every format. -/
def all : List OutputFormat :=
  [.json, .debug, .sexpr]

/-- The name of a format. -/
def name : OutputFormat → String
  | .json => "json"
  | .debug => "debug"
  | .sexpr => "sexpr"

/-- The format of the given name. -/
def ofName? (text : String) : Option OutputFormat :=
  all.find? fun format => format.name == text

/-- The label of a format in debugging output. -/
def label : OutputFormat → String
  | .json => "Json"
  | .debug => "Debug"
  | .sexpr => "Sexpr"

end OutputFormat

/-- An output configuration.  The source notation has one layout only. -/
structure OutputConfig where
  format : OutputFormat
  pretty : Bool
deriving DecidableEq, Repr

namespace OutputConfig

/-- JSON with a line for every part. -/
def standard : OutputConfig where
  format := .json
  pretty := true

instance : Inhabited OutputConfig :=
  ⟨standard⟩

/-- The record of a configuration. -/
def toJson (config : OutputConfig) : Json :=
  .object [("format", .string config.format.name), ("pretty", .bool config.pretty)]

/-- How a configuration is built. -/
def debugTree (config : OutputConfig) : Debug.Tree :=
  .named "OutputConfig"
    [("format", .leaf config.format.label.toList),
      ("pretty", .leaf (Json.bool config.pretty).compact)]

end OutputConfig
end TaskTree
