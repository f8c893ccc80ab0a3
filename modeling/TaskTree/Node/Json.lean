import TaskTree.Instant.Parse
import TaskTree.Instant.Written
import TaskTree.Node.Basic
import TaskTree.Value.Json

/-!
# Nodes as JSON

A node is a variant whose tag is its label.  The parts of a node are a record:
an object with one field for each part, in a fixed order, where a part that is
not set is `null`.
-/

namespace TaskTree

/-- A special form is the string of its name. -/
def SpecialForm.toJson (form : SpecialForm) : Json :=
  .string form.name

/-- The special form of a string, or of an object with that one name and nothing under it. -/
def SpecialForm.ofJson? : Json → Option SpecialForm
  | .string name => SpecialForm.ofName? name
  | .object [(name, .null)] => SpecialForm.ofName? name
  | _ => none

/-- The record of a reference. -/
def Symbol.toJson (name : Symbol) : Json :=
  .object [("name", .string name.name)]

/-- The record of a task whose plan has become a tree. -/
def TaskDetails.toJson (details : TaskDetails) (plan : Json) : Json :=
  .object
    [("id", .ofOption Value.toJson details.id),
      ("source", .ofOption Value.toJson details.source),
      ("natural_language", .ofOption Value.toJson details.naturalLanguage),
      ("intent", .ofOption Value.toJson details.intent),
      ("plan", plan),
      ("execution_log", .ofOption Value.toJson details.executionLog)]

/-- The record of a log entry whose plan has become a tree. -/
def EntryDetails.toJson (details : EntryDetails) (plan : Json) : Json :=
  .object
    [("stage", .ofOption Value.toJson details.stage),
      ("agent", .ofOption Value.toJson details.agent),
      ("timestamp", .ofOption (fun t => .string t.zuluText) details.timestamp),
      ("status", .ofOption Value.toJson details.status),
      ("derived_from", .ofOption Value.toJson details.derivedFrom),
      ("plan", plan),
      ("result", .ofOption Value.toJson details.result),
      ("error", .ofOption Value.toJson details.error),
      ("executing_step", .ofOption Value.toJson details.executingStep),
      ("executed_step", .ofOption Value.toJson details.executedStep)]

/-- The tags of nodes. -/
def Node.tags : List String :=
  ["Literal", "Symbol", "Call", "Do", "Def", "Let", "If", "Fn", "Parallel", "Join", "LogStep",
    "Task", "LogEntry"]

mutual

/-- The tree of a node. -/
def Node.toJson : Node → Json
  | .literal value => .ofVariant "Literal" value.toJson
  | .symbol name => .ofVariant "Symbol" name.toJson
  | .call elements => .ofVariant "Call" (.array (Node.allToJson elements))
  | .sequence body => .ofVariant "Do" (.array (Node.allToJson body))
  | .definition target value =>
      .ofVariant "Def" (.object [("symbol", target.toJson), ("value", value.toJson)])
  | .letBinding bindings body =>
      .ofVariant "Let"
        (.object
          [("bindings", .array (Node.bindingsToJson "symbol" bindings)),
            ("body", .array (Node.allToJson body))])
  | .conditional condition thenBranch elseBranch =>
      .ofVariant "If"
        (.object
          [("condition", condition.toJson),
            ("then_branch", thenBranch.toJson),
            ("else_branch", elseBranch.toJson)])
  | .function params body =>
      .ofVariant "Fn"
        (.object
          [("params", .array (params.map Symbol.toJson)),
            ("body", .array (Node.allToJson body))])
  | .parallel bindings =>
      .ofVariant "Parallel"
        (.object [("bindings", .array (Node.bindingsToJson "id" bindings))])
  | .join ids => .ofVariant "Join" (.object [("ids", .array (ids.map Symbol.toJson))])
  | .logStep id expr =>
      .ofVariant "LogStep" (.object [("id", id.toJson), ("expr", expr.toJson)])
  | .task details plan => .ofVariant "Task" (details.toJson plan.toJson)
  | .logEntry details none => .ofVariant "LogEntry" (details.toJson .null)
  | .logEntry details (some plan) => .ofVariant "LogEntry" (details.toJson plan.toJson)

/-- The trees of some nodes. -/
def Node.allToJson : List Node → List Json
  | [] => []
  | node :: nodes => node.toJson :: Node.allToJson nodes

/-- The records of some bindings, whose names are written under the given field. -/
def Node.bindingsToJson (field : String) : List (Symbol × Node) → List Json
  | [] => []
  | (name, expr) :: bindings =>
      .object [(field, name.toJson), ("expr", expr.toJson)]
        :: Node.bindingsToJson field bindings

end

/-- The reference of a record. -/
def Symbol.ofJson? (json : Json) : Option Symbol := do
  match ← json.record? ["name"] with
  | [some (.string name)] => some ⟨name⟩
  | _ => none

/-- The instant of a string. -/
def Instant.ofJson? : Json → Option Instant
  | .string text => Instant.ofRelaxed? text.toList
  | _ => none

namespace Node

/-- The binding of a record whose name stands under the given field. -/
def bindingOfJson? (field : String) (reference : Json → Option Symbol)
    (node : Json → Option Node) (json : Json) : Option (Symbol × Node) := do
  match ← json.record? [field, "expr"] with
  | [some name, some expr] => do
      let name ← reference name
      let expr ← node expr
      pure (name, expr)
  | _ => none

/-- The definition of a record. -/
def definitionOfJson? (reference : Json → Option Symbol) (node : Json → Option Node)
    (json : Json) : Option Node := do
  match ← json.record? ["symbol", "value"] with
  | [some target, some value] => do
      let target ← reference target
      let value ← node value
      pure (.definition target value)
  | _ => none

/-- The local bindings of a record. -/
def letBindingOfJson? (binding : Json → Option (Symbol × Node)) (node : Json → Option Node)
    (json : Json) : Option Node := do
  match ← json.record? ["bindings", "body"] with
  | [some bindings, some body] => do
      let bindings ← Json.items? binding bindings
      let body ← Json.items? node body
      pure (.letBinding bindings body)
  | _ => none

/-- The conditional of a record. -/
def conditionalOfJson? (node : Json → Option Node) (json : Json) : Option Node := do
  match ← json.record? ["condition", "then_branch", "else_branch"] with
  | [some condition, some thenBranch, some elseBranch] => do
      let condition ← node condition
      let thenBranch ← node thenBranch
      let elseBranch ← node elseBranch
      pure (.conditional condition thenBranch elseBranch)
  | _ => none

/-- The function of a record. -/
def functionOfJson? (reference : Json → Option Symbol) (node : Json → Option Node)
    (json : Json) : Option Node := do
  match ← json.record? ["params", "body"] with
  | [some params, some body] => do
      let params ← Json.items? reference params
      let body ← Json.items? node body
      pure (.function params body)
  | _ => none

/-- The parallel bindings of a record. -/
def parallelOfJson? (binding : Json → Option (Symbol × Node)) (json : Json) : Option Node := do
  match ← json.record? ["bindings"] with
  | [some bindings] => (Json.items? binding bindings).map .parallel
  | _ => none

/-- The join of a record. -/
def joinOfJson? (reference : Json → Option Symbol) (json : Json) : Option Node := do
  match ← json.record? ["ids"] with
  | [some ids] => (Json.items? reference ids).map .join
  | _ => none

/-- The logged step of a record. -/
def logStepOfJson? (reference : Json → Option Symbol) (node : Json → Option Node)
    (json : Json) : Option Node := do
  match ← json.record? ["id", "expr"] with
  | [some id, some expr] => do
      let id ← reference id
      let expr ← node expr
      pure (.logStep id expr)
  | _ => none

/-- The task of a record. -/
def taskOfJson? (value : Json → Option Value) (node : Json → Option Node) (json : Json) :
    Option Node := do
  let fields ←
    json.record? ["id", "source", "natural_language", "intent", "plan", "execution_log"]
  match fields with
  | [id, source, naturalLanguage, intent, some plan, executionLog] => do
      let id ← Json.optional? value id
      let source ← Json.optional? value source
      let naturalLanguage ← Json.optional? value naturalLanguage
      let intent ← Json.optional? value intent
      let plan ← node plan
      let executionLog ← Json.optional? value executionLog
      pure (.task { id, source, naturalLanguage, intent, executionLog } plan)
  | _ => none

/-- The log entry of a record. -/
def logEntryOfJson? (value : Json → Option Value) (node : Json → Option Node) (json : Json) :
    Option Node := do
  let fields ←
    json.record?
      ["stage", "agent", "timestamp", "status", "derived_from", "plan", "result", "error",
        "executing_step", "executed_step"]
  match fields with
  | [stage, agent, timestamp, status, derivedFrom, plan, result, error, executingStep,
      executedStep] => do
      let stage ← Json.optional? value stage
      let agent ← Json.optional? value agent
      let timestamp ← Json.optional? Instant.ofJson? timestamp
      let status ← Json.optional? value status
      let derivedFrom ← Json.optional? value derivedFrom
      let plan ← Json.optional? node plan
      let result ← Json.optional? value result
      let error ← Json.optional? value error
      let executingStep ← Json.optional? value executingStep
      let executedStep ← Json.optional? value executedStep
      pure
        (.logEntry
          { stage, agent, timestamp, status, derivedFrom, result, error, executingStep,
            executedStep }
          plan)
  | _ => none

/-- The node of a tree, which takes one level itself and one for its payload. -/
def ofJson? : (room : Nat) → (held : Bool) → Json → Option Node
  | 0, _, _ => none
  | 1, _, _ => none
  | room + 2, held, json => do
      let variant ← json.variant? tags (room + 1) held
      let payload ← variant.payload
      let held := variant.held
      -- a payload is one level in; the lists in its record and the records in those follow
      let node := ofJson? room held
      let item := ofJson? (room - 1) held
      let reference := Json.within room Symbol.ofJson?
      let referenceItem := Json.within (room - 1) Symbol.ofJson?
      let binding field :=
        Json.within (room - 1)
          (bindingOfJson? field (Json.within (room - 2) Symbol.ofJson?) (ofJson? (room - 2) held))
      match variant.tag with
      | "Literal" => (Value.ofJson? (room + 1) held payload).map .literal
      | "Symbol" => (Symbol.ofJson? payload).map .symbol
      | "Call" => (Json.items? node payload).map .call
      | "Do" => (Json.items? node payload).map .sequence
      | "Def" => definitionOfJson? reference node payload
      | "Let" => Json.within room (letBindingOfJson? (binding "symbol") item) payload
      | "If" => conditionalOfJson? node payload
      | "Fn" => Json.within room (functionOfJson? referenceItem item) payload
      | "Parallel" => Json.within room (parallelOfJson? (binding "id")) payload
      | "Join" => Json.within room (joinOfJson? referenceItem) payload
      | "LogStep" => logStepOfJson? reference node payload
      | "Task" => taskOfJson? (Value.ofJson? room held) node payload
      | "LogEntry" => logEntryOfJson? (Value.ofJson? room held) node payload
      | _ => none
termination_by room => room

/-- The node of a whole tree. -/
def decode? (json : Json) : Option Node :=
  ofJson? Json.nestingLimit false json

end Node
end TaskTree
