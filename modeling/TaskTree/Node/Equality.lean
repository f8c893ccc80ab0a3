import TaskTree.Node.Basic
import TaskTree.Value.Equality

/-!
# Equality of nodes

Two nodes are equal when they are of the same kind and their parts are equal;
the values that they carry are compared as values.
-/

namespace TaskTree

instance : BEq TaskDetails where
  beq a b :=
    a.id == b.id && a.source == b.source && a.naturalLanguage == b.naturalLanguage
      && a.intent == b.intent && a.executionLog == b.executionLog

instance : BEq EntryDetails where
  beq a b :=
    a.stage == b.stage && a.agent == b.agent && a.timestamp == b.timestamp
      && a.status == b.status && a.derivedFrom == b.derivedFrom && a.result == b.result
      && a.error == b.error && a.executingStep == b.executingStep
      && a.executedStep == b.executedStep

mutual

/-- Whether two nodes are equal. -/
def Node.equals : Node → Node → Bool
  | .literal a, .literal b => a == b
  | .symbol a, .symbol b => a == b
  | .call a, .call b => Node.allEqual a b
  | .sequence a, .sequence b => Node.allEqual a b
  | .definition target value, .definition target' value' =>
      target == target' && value.equals value'
  | .letBinding bindings body, .letBinding bindings' body' =>
      Node.bindingsEqual bindings bindings' && Node.allEqual body body'
  | .conditional a b c, .conditional a' b' c' => a.equals a' && b.equals b' && c.equals c'
  | .function params body, .function params' body' =>
      params == params' && Node.allEqual body body'
  | .parallel a, .parallel b => Node.bindingsEqual a b
  | .join a, .join b => a == b
  | .logStep id expr, .logStep id' expr' => id == id' && expr.equals expr'
  | .task details plan, .task details' plan' => details == details' && plan.equals plan'
  | .logEntry details none, .logEntry details' none => details == details'
  | .logEntry details (some plan), .logEntry details' (some plan') =>
      details == details' && plan.equals plan'
  | _, _ => false

/-- Whether two sequences have the same length and equal nodes. -/
def Node.allEqual : List Node → List Node → Bool
  | [], [] => true
  | a :: as, b :: bs => a.equals b && Node.allEqual as bs
  | _, _ => false

/-- Whether two sequences bind the same names to equal nodes. -/
def Node.bindingsEqual : List (Symbol × Node) → List (Symbol × Node) → Bool
  | [], [] => true
  | (name, expr) :: as, (name', expr') :: bs =>
      name == name' && expr.equals expr' && Node.bindingsEqual as bs
  | _, _ => false

end

instance : BEq Node :=
  ⟨Node.equals⟩

end TaskTree
