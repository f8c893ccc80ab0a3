import TaskTree.Instant.Basic
import TaskTree.SpecialForm
import TaskTree.Value.Basic

/-!
# Program trees

A node is a value understood as a program: special forms have become nodes of
their own, and a map that describes a task has its plan understood as well.
What a task or a log entry says besides its plan is carried as plain data.
-/

namespace TaskTree

/-- A named reference. -/
structure Symbol where
  name : String
deriving DecidableEq, Repr

/-- What is known of a task besides its plan.  Nothing here is understood as a program. -/
structure TaskDetails where
  id : Option Value
  source : Option Value
  naturalLanguage : Option Value
  intent : Option Value
  executionLog : Option Value

/-- What a log entry records besides its plan. -/
structure EntryDetails where
  stage : Option Value
  agent : Option Value
  timestamp : Option Instant
  status : Option Value
  derivedFrom : Option Value
  result : Option Value
  error : Option Value
  executingStep : Option Value
  executedStep : Option Value

/-- A program tree. -/
inductive Node where
  | literal (value : Value)
  | symbol (symbol : Symbol)
  | call (elements : List Node)
  | sequence (body : List Node)
  | definition (target : Symbol) (value : Node)
  | letBinding (bindings : List (Symbol × Node)) (body : List Node)
  | conditional (condition thenBranch elseBranch : Node)
  | function (params : List Symbol) (body : List Node)
  | parallel (bindings : List (Symbol × Node))
  | join (ids : List Symbol)
  | logStep (id : Symbol) (expr : Node)
  | task (details : TaskDetails) (plan : Node)
  | logEntry (details : EntryDetails) (plan : Option Node)

/-- A task of which nothing but the plan is known. -/
def TaskDetails.empty : TaskDetails where
  id := none
  source := none
  naturalLanguage := none
  intent := none
  executionLog := none

/-- A log entry that records nothing. -/
def EntryDetails.empty : EntryDetails where
  stage := none
  agent := none
  timestamp := none
  status := none
  derivedFrom := none
  result := none
  error := none
  executingStep := none
  executedStep := none

/-- The label of a node's kind where program trees are written out. -/
def Node.label : Node → String
  | .literal _ => "Literal"
  | .symbol _ => "Symbol"
  | .call _ => "Call"
  | .sequence _ => SpecialForm.label .sequence
  | .definition _ _ => SpecialForm.label .definition
  | .letBinding _ _ => SpecialForm.label .letBinding
  | .conditional _ _ _ => SpecialForm.label .conditional
  | .function _ _ => SpecialForm.label .function
  | .parallel _ => SpecialForm.label .parallel
  | .join _ => SpecialForm.label .join
  | .logStep _ _ => SpecialForm.label .logStep
  | .task _ _ => "Task"
  | .logEntry _ _ => "LogEntry"

end TaskTree
