import TaskTree.Node.Basic
import TaskTree.Node.Error
import TaskTree.Value.Equality

/-!
# Values understood as programs

`Node.ofValue` understands a value as a program.  Atoms, vectors and plain maps
stand for themselves; a map with `:id` and `:plan` is a task, and its plan is
understood in turn; a list is a special form if its head names one, and a call
otherwise.  The first part that cannot be understood, from left to right,
decides the error.
-/

namespace TaskTree

/-- The reference that a non-empty symbol makes. -/
def Symbol.ofValue? : Value → Option Symbol
  | .symbol name => if name.isEmpty then none else some ⟨name⟩
  | _ => none

/-- The references that a sequence of non-empty symbols makes. -/
def Symbol.ofValues? : List Value → Option (List Symbol)
  | [] => some []
  | value :: values => do
      let symbol ← Symbol.ofValue? value
      let symbols ← Symbol.ofValues? values
      pure (symbol :: symbols)

/-- The special form that a value names. -/
def SpecialForm.ofHead? (head : Value) : Option SpecialForm :=
  head.symbolName?.bind SpecialForm.ofName?

/-- Whether a map describes a task. -/
def Entries.isTask (entries : Entries) : Bool :=
  entries.hasKeyword "id" && entries.hasKeyword "plan"

/-- What the map of a task says besides its plan. -/
def TaskDetails.ofEntries (entries : Entries) : TaskDetails where
  id := entries.keyword? "id"
  source := entries.keyword? "source"
  naturalLanguage := entries.keyword? "natural-language"
  intent := entries.keyword? "intent"
  executionLog := entries.keyword? "execution-log"

/-- The refusal of a special form with the given arguments. -/
def ParseError.ofForm (form : SpecialForm) (head : Value) (args : List Value) : ParseError where
  fault := .invalidForm form
  fragment := .list (head :: args)

mutual

/-- Understands a value as a program. -/
def Node.ofValue : Value → Except ParseError Node
  | .symbol name =>
      if name.isEmpty then .error ⟨.unparseable, .symbol name⟩ else .ok (.symbol ⟨name⟩)
  | .list [] => .error ⟨.emptyList, .list []⟩
  | .list (head :: args) =>
      match SpecialForm.ofHead? head with
      | none => do
          let head ← Node.ofValue head
          let args ← Node.ofValues args
          return .call (head :: args)
      | some .sequence => do
          let body ← Node.ofValues args
          return .sequence body
      | some .join =>
          match Symbol.ofValues? args with
          | some ids => .ok (.join ids)
          | none => .error (.ofForm .join head args)
      | some .definition =>
          match args with
          | [target, value] =>
              match Symbol.ofValue? target with
              | some target => do
                  let value ← Node.ofValue value
                  return .definition target value
              | none => .error (.ofForm .definition head args)
          | _ => .error (.ofForm .definition head args)
      | some .letBinding =>
          match args with
          | .vector group :: body =>
              if group.length % 2 = 0 then do
                let bindings ← Node.ofFlatBindings (.ofForm .letBinding head args) group
                let body ← Node.ofValues body
                return .letBinding bindings body
              else .error (.ofForm .letBinding head args)
          | _ => .error (.ofForm .letBinding head args)
      | some .conditional =>
          match args with
          | [condition, thenBranch, elseBranch] => do
              let condition ← Node.ofValue condition
              let thenBranch ← Node.ofValue thenBranch
              let elseBranch ← Node.ofValue elseBranch
              return .conditional condition thenBranch elseBranch
          | _ => .error (.ofForm .conditional head args)
      | some .function =>
          match args with
          | .vector params :: body =>
              match Symbol.ofValues? params with
              | some params => do
                  let body ← Node.ofValues body
                  return .function params body
              | none => .error (.ofForm .function head args)
          | _ => .error (.ofForm .function head args)
      | some .parallel =>
          match args with
          | [.vector group] => do
              let bindings ← Node.ofPairedBindings (.ofForm .parallel head args) group
              return .parallel bindings
          | _ => .error (.ofForm .parallel head args)
      | some .logStep =>
          match args with
          | [marker, id, expr] =>
              match marker.isKeyword "id", Symbol.ofValue? id with
              | true, some id => do
                  let expr ← Node.ofValue expr
                  return .logStep id expr
              | _, _ => .error (.ofForm .logStep head args)
          | _ => .error (.ofForm .logStep head args)
  | .map entries =>
      if Entries.isTask entries then do
        let plan ← Node.ofPlan ⟨.unparseable, .map entries⟩ entries
        return .task (TaskDetails.ofEntries entries) plan
      else .ok (.literal (.map entries))
  | value => .ok (.literal value)
termination_by structural value => value

/-- Understands every one of some values. -/
def Node.ofValues : List Value → Except ParseError (List Node)
  | [] => .ok []
  | value :: values => do
      let node ← Node.ofValue value
      let nodes ← Node.ofValues values
      return node :: nodes
termination_by structural values => values

/-- Understands the plan of a task, the value of the first `:plan`.  The first argument is the
error if there is none. -/
def Node.ofPlan (missing : ParseError) : List (Value × Value) → Except ParseError Node
  | [] => .error missing
  | (key, value) :: entries =>
      if key.isKeyword "plan" then Node.ofValue value else Node.ofPlan missing entries
termination_by structural entries => entries

/-- Understands names and expressions in turn as bindings.  The first argument is the error if a
name is missing. -/
def Node.ofFlatBindings (unnamed : ParseError) :
    List Value → Except ParseError (List (Symbol × Node))
  | name :: expr :: rest =>
      match Symbol.ofValue? name with
      | some name => do
          let expr ← Node.ofValue expr
          let bindings ← Node.ofFlatBindings unnamed rest
          return (name, expr) :: bindings
      | none => .error unnamed
  | _ => .ok []
termination_by structural items => items

/-- Understands vectors of name and expression as bindings.  The first argument is the error if
an item has another shape. -/
def Node.ofPairedBindings (unnamed : ParseError) :
    List Value → Except ParseError (List (Symbol × Node))
  | [] => .ok []
  | .vector [id, expr] :: rest =>
      match Symbol.ofValue? id with
      | some id => do
          let expr ← Node.ofValue expr
          let bindings ← Node.ofPairedBindings unnamed rest
          return (id, expr) :: bindings
      | none => .error unnamed
  | _ :: _ => .error unnamed
termination_by structural items => items

end
end TaskTree
