import TaskTree.Instant.Written
import TaskTree.Node.Basic

/-!
# Nodes as values

`Node.toValue` is the value that a node stands for: the form that would be
understood as the node again.  A task and a log entry become maps with the keys
that are set, in a fixed order.
-/

namespace TaskTree

/-- The symbol as a value. -/
def Symbol.toValue (symbol : Symbol) : Value :=
  .symbol symbol.name

/-- An entry under a keyword, if there is a value. -/
def Entries.optional (key : String) : Option Value → Entries
  | some value => [(.keyword key, value)]
  | none => []

/-- The map of a task whose plan has become a value. -/
def TaskDetails.entries (details : TaskDetails) (plan : Value) : Entries :=
  Entries.optional "id" details.id
    ++ Entries.optional "source" details.source
    ++ Entries.optional "natural-language" details.naturalLanguage
    ++ Entries.optional "intent" details.intent
    ++ [(.keyword "plan", plan)]
    ++ Entries.optional "execution-log" details.executionLog

/-- The map of a log entry whose plan has become a value. -/
def EntryDetails.entries (details : EntryDetails) (plan : Option Value) : Entries :=
  Entries.optional "stage" details.stage
    ++ Entries.optional "agent" details.agent
    ++ Entries.optional "timestamp" (details.timestamp.map fun t => .string t.offsetText)
    ++ Entries.optional "status" details.status
    ++ Entries.optional "derived-from" details.derivedFrom
    ++ Entries.optional "plan" plan
    ++ Entries.optional "result" details.result
    ++ Entries.optional "error" details.error
    ++ Entries.optional "executing-step" details.executingStep
    ++ Entries.optional "executed-step" details.executedStep

/-- A special form with its arguments. -/
def SpecialForm.applied (form : SpecialForm) (args : List Value) : Value :=
  .list (.symbol form.name :: args)

mutual

/-- The value that a node stands for. -/
def Node.toValue : Node → Value
  | .literal value => value
  | .symbol name => name.toValue
  | .call elements => .list (Node.toValues elements)
  | .sequence body => SpecialForm.applied .sequence (Node.toValues body)
  | .definition target value => SpecialForm.applied .definition [target.toValue, value.toValue]
  | .letBinding bindings body =>
      SpecialForm.applied .letBinding
        (.vector (Node.flatBindings bindings) :: Node.toValues body)
  | .conditional condition thenBranch elseBranch =>
      SpecialForm.applied .conditional
        [condition.toValue, thenBranch.toValue, elseBranch.toValue]
  | .function params body =>
      SpecialForm.applied .function
        (.vector (params.map Symbol.toValue) :: Node.toValues body)
  | .parallel bindings => SpecialForm.applied .parallel [.vector (Node.pairedBindings bindings)]
  | .join ids => SpecialForm.applied .join (ids.map Symbol.toValue)
  | .logStep id expr =>
      SpecialForm.applied .logStep [.keyword "id", id.toValue, expr.toValue]
  | .task details plan => .map (details.entries plan.toValue)
  | .logEntry details none => .map (details.entries none)
  | .logEntry details (some plan) => .map (details.entries (some plan.toValue))

/-- The values that some nodes stand for. -/
def Node.toValues : List Node → List Value
  | [] => []
  | node :: nodes => node.toValue :: Node.toValues nodes

/-- Names and expressions in turn. -/
def Node.flatBindings : List (Symbol × Node) → List Value
  | [] => []
  | (name, expr) :: bindings => name.toValue :: expr.toValue :: Node.flatBindings bindings

/-- A vector of name and expression for each binding. -/
def Node.pairedBindings : List (Symbol × Node) → List Value
  | [] => []
  | (name, expr) :: bindings =>
      .vector [name.toValue, expr.toValue] :: Node.pairedBindings bindings

end
end TaskTree
