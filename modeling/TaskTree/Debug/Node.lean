import TaskTree.Debug.Value
import TaskTree.Instant.Written
import TaskTree.Node.Basic

/-!
# Nodes in debugging output
-/

namespace TaskTree

/-- How a reference is built. -/
def Symbol.debugTree (name : Symbol) : Debug.Tree :=
  .named "Symbol" [("name", .leaf (Debug.quoted name.name))]

/-- How data that is carried along is built. -/
def Value.carriedTree (value : Value) : Debug.Tree :=
  .apply "Opaque" value.debugTree

/-- How a task is built, given how its plan is. -/
def TaskDetails.debugTree (details : TaskDetails) (plan : Debug.Tree) : Debug.Tree :=
  .named "Task"
    [("id", .optional Value.debugTree details.id),
      ("source", .optional Value.debugTree details.source),
      ("natural_language", .optional Value.debugTree details.naturalLanguage),
      ("intent", .optional Value.carriedTree details.intent),
      ("plan", plan),
      ("execution_log", .optional Value.carriedTree details.executionLog)]

/-- How a log entry is built, given how its plan is. -/
def EntryDetails.debugTree (details : EntryDetails) (plan : Debug.Tree) : Debug.Tree :=
  .named "LogEntry"
    [("stage", .optional Value.debugTree details.stage),
      ("agent", .optional Value.debugTree details.agent),
      ("timestamp", .optional (fun t => .leaf t.zuluText.toList) details.timestamp),
      ("status", .optional Value.debugTree details.status),
      ("derived_from", .optional Value.debugTree details.derivedFrom),
      ("plan", plan),
      ("result", .optional Value.debugTree details.result),
      ("error", .optional Value.debugTree details.error),
      ("executing_step", .optional Value.debugTree details.executingStep),
      ("executed_step", .optional Value.debugTree details.executedStep)]

mutual

/-- How a node is built. -/
def Node.debugTree : Node → Debug.Tree
  | .literal value => .apply "Literal" value.debugTree
  | .symbol name => .apply "Symbol" name.debugTree
  | .call elements => .apply "Call" (.list (Node.debugTrees elements))
  | .sequence body => .apply "Do" (.list (Node.debugTrees body))
  | .definition target value =>
      .apply "Def"
        (.named "DefExpr" [("symbol", target.debugTree), ("value", value.debugTree)])
  | .letBinding bindings body =>
      .apply "Let"
        (.named "LetExpr"
          [("bindings", .list (Node.debugBindings "LetBinding" "symbol" bindings)),
            ("body", .list (Node.debugTrees body))])
  | .conditional condition thenBranch elseBranch =>
      .apply "If"
        (.named "IfExpr"
          [("condition", condition.debugTree),
            ("then_branch", thenBranch.debugTree),
            ("else_branch", elseBranch.debugTree)])
  | .function params body =>
      .apply "Fn"
        (.named "FnExpr"
          [("params", .list (params.map Symbol.debugTree)),
            ("body", .list (Node.debugTrees body))])
  | .parallel bindings =>
      .apply "Parallel"
        (.named "ParallelExpr"
          [("bindings", .list (Node.debugBindings "ParallelBinding" "id" bindings))])
  | .join ids =>
      .apply "Join" (.named "JoinExpr" [("ids", .list (ids.map Symbol.debugTree))])
  | .logStep id expr =>
      .apply "LogStep"
        (.named "LogStepExpr" [("id", id.debugTree), ("expr", expr.debugTree)])
  | .task details plan => .apply "Task" (details.debugTree plan.debugTree)
  | .logEntry details none =>
      .apply "LogEntry" (details.debugTree (.leaf ['N', 'o', 'n', 'e']))
  | .logEntry details (some plan) =>
      .apply "LogEntry" (details.debugTree (.apply "Some" plan.debugTree))

/-- How some nodes are built. -/
def Node.debugTrees : List Node → List Debug.Tree
  | [] => []
  | node :: nodes => node.debugTree :: Node.debugTrees nodes

/-- How some bindings are built, under the names of the binding and of its first part. -/
def Node.debugBindings (name first : String) : List (Symbol × Node) → List Debug.Tree
  | [] => []
  | (target, expr) :: bindings =>
      .named name [(first, target.debugTree), ("expr", expr.debugTree)]
        :: Node.debugBindings name first bindings

end
end TaskTree
