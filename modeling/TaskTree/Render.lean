import TaskTree.Debug.Node
import TaskTree.Node.Json
import TaskTree.Node.ToValue
import TaskTree.OutputConfig.Basic

/-!
# Writing values and nodes out

In the source notation a node is written as the value that it stands for.
-/

namespace TaskTree

/-- A value as a configuration wants it. -/
def Value.render (config : OutputConfig) (value : Value) : String :=
  match config.format with
  | .json => value.toJson.written config.pretty
  | .debug => value.debugTree.written config.pretty
  | .sexpr => value.written

/-- A node as a configuration wants it. -/
def Node.render (config : OutputConfig) (node : Node) : String :=
  match config.format with
  | .json => node.toJson.written config.pretty
  | .debug => node.debugTree.written config.pretty
  | .sexpr => node.toValue.written

end TaskTree
