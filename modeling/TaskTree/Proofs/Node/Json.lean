import TaskTree.Proofs.Instant.ReadBack
import TaskTree.Proofs.Value.Json
import TaskTree.Render

/-!
# Nodes read back from JSON

The tree of every node is one that has a text, in either layout.  A node is
found in its tree again if there is room for all its levels, its numbers come
back by themselves, and the times of its log entries can be stored.

**Results.**
* `Node.parse_render`: the JSON text of a node is read as the tree of the node.
* `Node.ofJson?_toJson`: a node is found in its tree.
* `Node.ofJsonText?_render`: a node is read back from its JSON text in both layouts.
-/

namespace TaskTree

/-- The values that a task may give besides its plan. -/
def TaskDetails.parts (details : TaskDetails) : List (Option Value) :=
  [details.id, details.source, details.naturalLanguage, details.intent, details.executionLog]

/-- The values that a log entry may give besides its time and its plan. -/
def EntryDetails.parts (details : EntryDetails) : List (Option Value) :=
  [details.stage, details.agent, details.status, details.derivedFrom, details.result,
    details.error, details.executingStep, details.executedStep]

/-- All values in a node have the one property, and all times of log entries the other. -/
inductive Node.Carries (p : Value → Prop) (q : Instant → Prop) : Node → Prop
  | literal
      {value : Value}
      (h : p value) :
      Carries p q (.literal value)
  | symbol
      (name : Symbol) :
      Carries p q (.symbol name)
  | call
      {elements : List Node}
      (h : ∀ element ∈ elements, Carries p q element) :
      Carries p q (.call elements)
  | sequence
      {body : List Node}
      (h : ∀ expr ∈ body, Carries p q expr) :
      Carries p q (.sequence body)
  | definition
      (target : Symbol)
      {value : Node}
      (h : Carries p q value) :
      Carries p q (.definition target value)
  | letBinding
      {bindings : List (Symbol × Node)} {body : List Node}
      (hbindings : ∀ b ∈ bindings, Carries p q b.2)
      (hbody : ∀ expr ∈ body, Carries p q expr) :
      Carries p q (.letBinding bindings body)
  | conditional
      {condition thenBranch elseBranch : Node}
      (hcondition : Carries p q condition)
      (hthen : Carries p q thenBranch)
      (helse : Carries p q elseBranch) :
      Carries p q (.conditional condition thenBranch elseBranch)
  | function
      (params : List Symbol)
      {body : List Node}
      (h : ∀ expr ∈ body, Carries p q expr) :
      Carries p q (.function params body)
  | parallel
      {bindings : List (Symbol × Node)}
      (h : ∀ b ∈ bindings, Carries p q b.2) :
      Carries p q (.parallel bindings)
  | join
      (ids : List Symbol) :
      Carries p q (.join ids)
  | logStep
      (id : Symbol)
      {expr : Node}
      (h : Carries p q expr) :
      Carries p q (.logStep id expr)
  | task
      {details : TaskDetails} {plan : Node}
      (hparts : ∀ part ∈ details.parts, ∀ value, part = some value → p value)
      (hplan : Carries p q plan) :
      Carries p q (.task details plan)
  | logEntry
      {details : EntryDetails} {plan : Option Node}
      (hparts : ∀ part ∈ details.parts, ∀ value, part = some value → p value)
      (htime : ∀ t, details.timestamp = some t → q t)
      (hplan : ∀ node, plan = some node → Carries p q node) :
      Carries p q (.logEntry details plan)

namespace Node

/-- The node that a JSON text holds. -/
def ofJsonText? (text : String) : Option Node :=
  (Json.parse text).toOption.bind decode?

section Trees

theorem allToJson_eq_map
    (nodes : List Node) :
    allToJson nodes = nodes.map toJson := by
  induction nodes with
  | nil => rfl
  | cons node nodes ih => rw [allToJson, ih, List.map_cons]

/-- The record of a binding. -/
def bindingToJson (field : String) (b : Symbol × Node) : Json :=
  .object [(field, b.1.toJson), ("expr", b.2.toJson)]

theorem bindingsToJson_eq_map
    (field : String) (bindings : List (Symbol × Node)) :
    bindingsToJson field bindings = bindings.map (bindingToJson field) := by
  induction bindings with
  | nil => rfl
  | cons b bindings ih =>
      rw [bindingsToJson, ih, List.map_cons]
      rfl

end Trees

section Standard

theorem standard_reference
    (name : Symbol) :
    name.toJson.Standard := by
  refine .object ?_
  simp [Json.Standard.string]

theorem standard_references
    (names : List Symbol) :
    Json.Standard (.array (names.map Symbol.toJson)) :=
  .array (List.forall_mem_map.2 fun name _ => standard_reference name)

theorem standard_part
    (part : Option Value) :
    (Json.ofOption Value.toJson part).Standard := by
  cases part with
  | none => exact .null
  | some value => exact value.standard_toJson

theorem standard_time
    (time : Option Instant) :
    (Json.ofOption (fun t : Instant => .string t.zuluText) time).Standard := by
  cases time with
  | none => exact .null
  | some t => exact .string _

theorem standard_task
    {plan : Json}
    (details : TaskDetails)
    (h : plan.Standard) :
    (details.toJson plan).Standard := by
  refine .object ?_
  simp [h, standard_part]

theorem standard_logEntry
    {plan : Json}
    (details : EntryDetails)
    (h : plan.Standard) :
    (details.toJson plan).Standard := by
  refine .object ?_
  simp [h, standard_part, standard_time]

mutual

/-- The tree of a node has a text. -/
theorem standard_toJson :
    (node : Node) → node.toJson.Standard
  | .literal value => Json.Standard.ofVariant _ value.standard_toJson
  | .symbol name => Json.Standard.ofVariant _ (standard_reference name)
  | .call elements => Json.Standard.ofVariant _ (.array (standard_allToJson elements))
  | .sequence body => Json.Standard.ofVariant _ (.array (standard_allToJson body))
  | .definition target value => by
      refine Json.Standard.ofVariant _ (.object ?_)
      simp [standard_reference, standard_toJson value]
  | .letBinding bindings body => by
      refine Json.Standard.ofVariant _ (.object ?_)
      simp [Json.Standard.array (standard_bindingsToJson "symbol" bindings),
        Json.Standard.array (standard_allToJson body)]
  | .conditional condition thenBranch elseBranch => by
      refine Json.Standard.ofVariant _ (.object ?_)
      simp [standard_toJson condition, standard_toJson thenBranch, standard_toJson elseBranch]
  | .function params body => by
      refine Json.Standard.ofVariant _ (.object ?_)
      simp [standard_references, Json.Standard.array (standard_allToJson body)]
  | .parallel bindings => by
      refine Json.Standard.ofVariant _ (.object ?_)
      simp [Json.Standard.array (standard_bindingsToJson "id" bindings)]
  | .join ids => by
      refine Json.Standard.ofVariant _ (.object ?_)
      simp [standard_references]
  | .logStep id expr => by
      refine Json.Standard.ofVariant _ (.object ?_)
      simp [standard_reference, standard_toJson expr]
  | .task details plan => Json.Standard.ofVariant _ (standard_task details (standard_toJson plan))
  | .logEntry details none => Json.Standard.ofVariant _ (standard_logEntry details .null)
  | .logEntry details (some plan) =>
      Json.Standard.ofVariant _ (standard_logEntry details (standard_toJson plan))

theorem standard_allToJson :
    (nodes : List Node) → ∀ item ∈ allToJson nodes, item.Standard
  | [] => List.forall_mem_nil _
  | node :: nodes => List.forall_mem_cons.2 ⟨standard_toJson node, standard_allToJson nodes⟩

theorem standard_bindingsToJson
    (field : String) :
    (bindings : List (Symbol × Node)) → ∀ item ∈ bindingsToJson field bindings, item.Standard
  | [] => List.forall_mem_nil _
  | (name, expr) :: bindings => by
      refine List.forall_mem_cons.2 ⟨.object ?_, standard_bindingsToJson field bindings⟩
      simp [standard_reference, standard_toJson expr]

end

/-- The JSON text of a node is read as the tree of the node. -/
theorem parse_render
    (node : Node) (pretty : Bool) :
    Json.parse (node.render { format := .json, pretty := pretty }) = .ok node.toJson :=
  Json.parse_written node.standard_toJson pretty

end Standard

section Decoders

variable {reference : Json → Option Symbol} {node : Json → Option Node}
  {binding : Json → Option (Symbol × Node)} {value : Json → Option Value}

theorem ofJson?_reference
    (name : Symbol) :
    Symbol.ofJson? name.toJson = some name := by
  rfl

theorem bindingOfJson?_toJson
    {field : String}
    (hfield : field ≠ "expr")
    {b : Symbol × Node}
    (hname : reference b.1.toJson = some b.1)
    (hexpr : node b.2.toJson = some b.2) :
    bindingOfJson? field reference node (bindingToJson field b) = some b := by
  have hrecord : (bindingToJson field b).record? [field, "expr"]
      = some [some b.1.toJson, some b.2.toJson] := by
    simp [Json.record?, bindingToJson, hfield, hfield.symm]
  simp [bindingOfJson?, hrecord, hname, hexpr]

theorem definitionOfJson?_eq
    {target : Symbol} {expr : Node} {targetJson exprJson : Json}
    (htarget : reference targetJson = some target)
    (hexpr : node exprJson = some expr) :
    definitionOfJson? reference node (.object [("symbol", targetJson), ("value", exprJson)])
      = some (.definition target expr) := by
  have hrecord : Json.record? ["symbol", "value"]
      (.object [("symbol", targetJson), ("value", exprJson)])
      = some [some targetJson, some exprJson] := rfl
  simp [definitionOfJson?, hrecord, htarget, hexpr]

theorem letBindingOfJson?_eq
    {bindings : List (Symbol × Node)} {body : List Node} {bindingsJson bodyJson : Json}
    (hbindings : Json.items? binding bindingsJson = some bindings)
    (hbody : Json.items? node bodyJson = some body) :
    letBindingOfJson? binding node (.object [("bindings", bindingsJson), ("body", bodyJson)])
      = some (.letBinding bindings body) := by
  have hrecord : Json.record? ["bindings", "body"]
      (.object [("bindings", bindingsJson), ("body", bodyJson)])
      = some [some bindingsJson, some bodyJson] := rfl
  simp [letBindingOfJson?, hrecord, hbindings, hbody]

theorem conditionalOfJson?_eq
    {condition thenBranch elseBranch : Node} {conditionJson thenJson elseJson : Json}
    (hcondition : node conditionJson = some condition)
    (hthen : node thenJson = some thenBranch)
    (helse : node elseJson = some elseBranch) :
    conditionalOfJson? node
        (.object
          [("condition", conditionJson), ("then_branch", thenJson), ("else_branch", elseJson)])
      = some (.conditional condition thenBranch elseBranch) := by
  have hrecord : Json.record? ["condition", "then_branch", "else_branch"]
      (.object
        [("condition", conditionJson), ("then_branch", thenJson), ("else_branch", elseJson)])
      = some [some conditionJson, some thenJson, some elseJson] := rfl
  simp [conditionalOfJson?, hrecord, hcondition, hthen, helse]

theorem functionOfJson?_eq
    {params : List Symbol} {body : List Node} {paramsJson bodyJson : Json}
    (hparams : Json.items? reference paramsJson = some params)
    (hbody : Json.items? node bodyJson = some body) :
    functionOfJson? reference node (.object [("params", paramsJson), ("body", bodyJson)])
      = some (.function params body) := by
  have hrecord : Json.record? ["params", "body"]
      (.object [("params", paramsJson), ("body", bodyJson)])
      = some [some paramsJson, some bodyJson] := rfl
  simp [functionOfJson?, hrecord, hparams, hbody]

theorem parallelOfJson?_eq
    {bindings : List (Symbol × Node)} {bindingsJson : Json}
    (h : Json.items? binding bindingsJson = some bindings) :
    parallelOfJson? binding (.object [("bindings", bindingsJson)])
      = some (.parallel bindings) := by
  have hrecord : Json.record? ["bindings"] (.object [("bindings", bindingsJson)])
      = some [some bindingsJson] := rfl
  simp [parallelOfJson?, hrecord, h]

theorem joinOfJson?_eq
    {ids : List Symbol} {idsJson : Json}
    (h : Json.items? reference idsJson = some ids) :
    joinOfJson? reference (.object [("ids", idsJson)]) = some (.join ids) := by
  have hrecord : Json.record? ["ids"] (.object [("ids", idsJson)]) = some [some idsJson] := rfl
  simp [joinOfJson?, hrecord, h]

theorem logStepOfJson?_eq
    {id : Symbol} {expr : Node} {idJson exprJson : Json}
    (hid : reference idJson = some id)
    (hexpr : node exprJson = some expr) :
    logStepOfJson? reference node (.object [("id", idJson), ("expr", exprJson)])
      = some (.logStep id expr) := by
  have hrecord : Json.record? ["id", "expr"] (.object [("id", idJson), ("expr", exprJson)])
      = some [some idJson, some exprJson] := rfl
  simp [logStepOfJson?, hrecord, hid, hexpr]

theorem taskOfJson?_eq
    {details : TaskDetails} {plan : Node} {planJson : Json}
    (hparts : ∀ part ∈ details.parts,
      Json.optional? value (some (.ofOption Value.toJson part)) = some part)
    (hplan : node planJson = some plan) :
    taskOfJson? value node (details.toJson planJson) = some (.task details plan) := by
  simp only [TaskDetails.parts, List.forall_mem_cons] at hparts
  obtain ⟨hid, hsource, hnatural, hintent, hlog, -⟩ := hparts
  have hrecord : (details.toJson planJson).record?
      ["id", "source", "natural_language", "intent", "plan", "execution_log"]
      = some
          [some (.ofOption Value.toJson details.id), some (.ofOption Value.toJson details.source),
            some (.ofOption Value.toJson details.naturalLanguage),
            some (.ofOption Value.toJson details.intent), some planJson,
            some (.ofOption Value.toJson details.executionLog)] := rfl
  simp [taskOfJson?, hrecord, hid, hsource, hnatural, hintent, hlog, hplan]

theorem logEntryOfJson?_eq
    {details : EntryDetails} {plan : Option Node} {planJson : Json}
    (hparts : ∀ part ∈ details.parts,
      Json.optional? value (some (.ofOption Value.toJson part)) = some part)
    (htime : Json.optional? Instant.ofJson?
      (some (.ofOption (fun t : Instant => .string t.zuluText) details.timestamp))
      = some details.timestamp)
    (hplan : Json.optional? node (some planJson) = some plan) :
    logEntryOfJson? value node (details.toJson planJson) = some (.logEntry details plan) := by
  simp only [EntryDetails.parts, List.forall_mem_cons] at hparts
  obtain ⟨hstage, hagent, hstatus, hderived, hresult, herror, hexecuting, hexecuted, -⟩ := hparts
  have hrecord : (details.toJson planJson).record?
      ["stage", "agent", "timestamp", "status", "derived_from", "plan", "result", "error",
        "executing_step", "executed_step"]
      = some
          [some (.ofOption Value.toJson details.stage), some (.ofOption Value.toJson details.agent),
            some (.ofOption (fun t : Instant => .string t.zuluText) details.timestamp),
            some (.ofOption Value.toJson details.status),
            some (.ofOption Value.toJson details.derivedFrom), some planJson,
            some (.ofOption Value.toJson details.result),
            some (.ofOption Value.toJson details.error),
            some (.ofOption Value.toJson details.executingStep),
            some (.ofOption Value.toJson details.executedStep)] := rfl
  simp [logEntryOfJson?, hrecord, hstage, hagent, htime, hstatus, hderived, hplan, hresult, herror,
    hexecuting, hexecuted]

end Decoders

section Depth

variable {room : Nat}

/-- A reference is found within its level. -/
theorem within_reference
    {name : Symbol}
    (h : name.toJson.depth ≤ room) :
    Json.within room Symbol.ofJson? name.toJson = some name := by
  rw [Json.within_eq (Json.depth_object_le_iff.1 h).1, ofJson?_reference]

/-- A binding is found within its level. -/
theorem within_bindingOfJson?
    {field : String}
    (hfield : field ≠ "expr")
    {b : Symbol × Node} {held : Bool}
    (hdepth : (bindingToJson field b).depth ≤ room - 1)
    (hexpr : b.2.toJson.depth ≤ room - 2 → ofJson? (room - 2) held b.2.toJson = some b.2) :
    Json.within (room - 1)
        (bindingOfJson? field (Json.within (room - 2) Symbol.ofJson?) (ofJson? (room - 2) held))
        (bindingToJson field b)
      = some b := by
  obtain ⟨hroom, hfields⟩ := Json.depth_object_le_iff.1 hdepth
  have htwo : room - 1 - 1 = room - 2 := by omega
  simp only [List.forall_mem_cons, htwo] at hfields
  rw [Json.within_eq hroom]
  exact bindingOfJson?_toJson hfield (within_reference hfields.1) (hexpr hfields.2.1)

theorem toJson_ne_null
    (node : Node) :
    node.toJson ≠ .null := by
  cases node with
  | logEntry details plan => cases plan <;> simp [toJson, Json.ofVariant]
  | _ => simp [toJson, Json.ofVariant]

theorem two_le_depth_toJson
    (node : Node) :
    2 ≤ node.toJson.depth := by
  cases node with
  | literal value =>
      have hvalue := value.one_le_depth_toJson
      rw [toJson, Json.depth_ofVariant]
      omega
  | logEntry details plan =>
      cases plan <;> simp [toJson, Json.depth_ofVariant, EntryDetails.toJson, Json.depth]
  | _ => simp [toJson, Json.depth_ofVariant, Json.depth, Symbol.toJson, TaskDetails.toJson]

/-- The parts of a task are one level further in than the task. -/
theorem depth_task
    {details : TaskDetails} {plan : Json}
    (h : (details.toJson plan).depth ≤ room + 1) :
    (∀ part ∈ details.parts, (Json.ofOption Value.toJson part).depth ≤ room) ∧
      plan.depth ≤ room := by
  simp only [TaskDetails.toJson, Json.depth_object_le_succ_iff, List.forall_mem_cons] at h
  obtain ⟨hid, hsource, hnatural, hintent, hplan, hlog, -⟩ := h
  exact ⟨by simp [TaskDetails.parts, *], hplan⟩

theorem depth_logEntry
    {details : EntryDetails} {plan : Json}
    (h : (details.toJson plan).depth ≤ room + 1) :
    (∀ part ∈ details.parts, (Json.ofOption Value.toJson part).depth ≤ room) ∧
      plan.depth ≤ room := by
  simp only [EntryDetails.toJson, Json.depth_object_le_succ_iff, List.forall_mem_cons] at h
  obtain ⟨hstage, hagent, -, hstatus, hderived, hplan, hresult, herror, hexecuting, hexecuted, -⟩ :=
    h
  exact ⟨by simp [EntryDetails.parts, *], hplan⟩

end Depth

section Reading

/-- Values are found in the parts of a task or a log entry. -/
theorem optional?_part
    {room : Nat} {part : Option Value}
    (h : ∀ value, part = some value → value.Portable)
    (hdepth : (Json.ofOption Value.toJson part).depth ≤ room)
    (held : Bool) :
    Json.optional? (Value.ofJson? room held) (some (.ofOption Value.toJson part)) = some part := by
  refine Json.optional?_ofOption (fun value => ?_) fun value hvalue => ?_
  · cases value <;> simp [Value.toJson, Json.ofVariant]
  · subst hvalue
    exact Value.ofJson?_toJson (h value rfl) hdepth held

theorem optional?_time
    {time : Option Instant}
    (h : ∀ t, time = some t → t.Stored) :
    Json.optional? Instant.ofJson?
        (some (.ofOption (fun t : Instant => .string t.zuluText) time))
      = some time := by
  refine Json.optional?_ofOption (fun t => by simp) fun t ht => ?_
  rw [Instant.ofJson?, Instant.zuluText, String.toList_ofList]
  exact Instant.ofRelaxed?_text (h t ht)

variable {node : Node} {room : Nat}

/-- The payload of a node has one level less than the room that is left for it. -/
theorem ofJson?_of_payload
    {tag : String} {payload : Json} {held : Bool}
    (htree : node.toJson = .ofVariant tag payload)
    (hdepth : node.toJson.depth ≤ room)
    (hread : ∀ r, payload.depth ≤ r + 1 →
      ofJson? (r + 2) held (.ofVariant tag payload) = some node) :
    ofJson? room held node.toJson = some node := by
  have htwo := node.two_le_depth_toJson
  obtain ⟨r, rfl⟩ : ∃ r, room = r + 2 := ⟨room - 2, by omega⟩
  rw [htree, Json.depth_ofVariant] at hdepth
  rw [htree]
  exact hread r (by omega)

/-- A node is found in its tree, if there is room for the tree. -/
theorem ofJson?_toJson
    (h : node.Carries Value.Portable Instant.Stored)
    (hdepth : node.toJson.depth ≤ room)
    (held : Bool) :
    ofJson? room held node.toJson = some node := by
  induction h generalizing room with
  | literal hvalue =>
      refine ofJson?_of_payload (by rw [toJson]) hdepth fun r hpayload => ?_
      rw [ofJson?]
      exact congrArg (Option.map literal) (Value.ofJson?_toJson hvalue hpayload held)
  | symbol name =>
      refine ofJson?_of_payload (by rw [toJson]) hdepth fun r _ => ?_
      rw [ofJson?]
      rfl
  | call _ ih =>
      refine ofJson?_of_payload (by rw [toJson, allToJson_eq_map]) hdepth fun r hpayload => ?_
      rw [ofJson?]
      exact congrArg (Option.map call) (Json.items?_map_of_depth hpayload fun e he => ih e he)
  | sequence _ ih =>
      refine ofJson?_of_payload (by rw [toJson, allToJson_eq_map]) hdepth fun r hpayload => ?_
      rw [ofJson?]
      exact congrArg (Option.map sequence) (Json.items?_map_of_depth hpayload fun e he => ih e he)
  | definition target _ ih =>
      refine ofJson?_of_payload (by rw [toJson]) hdepth fun r hpayload => ?_
      simp only [Json.depth_object_le_succ_iff, List.forall_mem_cons] at hpayload
      rw [ofJson?]
      exact definitionOfJson?_eq (within_reference hpayload.1) (ih hpayload.2.1)
  | letBinding _ _ ihBindings ihBody =>
      refine ofJson?_of_payload (by rw [toJson, bindingsToJson_eq_map, allToJson_eq_map]) hdepth
        fun r hpayload => ?_
      simp only [Json.depth_object_le_succ_iff, List.forall_mem_cons] at hpayload
      have hroom := (Json.depth_array_le_iff.1 hpayload.1).1
      rw [ofJson?]
      refine (Json.within_eq hroom _ _).trans (letBindingOfJson?_eq ?_ ?_)
      · exact Json.items?_map_of_depth hpayload.1 fun b hb hdepth =>
          within_bindingOfJson? (by decide) hdepth (ihBindings b hb)
      · exact Json.items?_map_of_depth hpayload.2.1 fun e he => ihBody e he
  | conditional _ _ _ ihCondition ihThen ihElse =>
      refine ofJson?_of_payload (by rw [toJson]) hdepth fun r hpayload => ?_
      simp only [Json.depth_object_le_succ_iff, List.forall_mem_cons] at hpayload
      rw [ofJson?]
      exact conditionalOfJson?_eq (ihCondition hpayload.1) (ihThen hpayload.2.1)
        (ihElse hpayload.2.2.1)
  | function params _ ih =>
      refine ofJson?_of_payload (by rw [toJson, allToJson_eq_map]) hdepth fun r hpayload => ?_
      simp only [Json.depth_object_le_succ_iff, List.forall_mem_cons] at hpayload
      have hroom := (Json.depth_array_le_iff.1 hpayload.1).1
      rw [ofJson?]
      refine (Json.within_eq hroom _ _).trans (functionOfJson?_eq ?_ ?_)
      · exact Json.items?_map_of_depth hpayload.1 fun _ _ => within_reference
      · exact Json.items?_map_of_depth hpayload.2.1 fun e he => ih e he
  | parallel _ ih =>
      refine ofJson?_of_payload (by rw [toJson, bindingsToJson_eq_map]) hdepth
        fun r hpayload => ?_
      simp only [Json.depth_object_le_succ_iff, List.forall_mem_cons] at hpayload
      have hroom := (Json.depth_array_le_iff.1 hpayload.1).1
      rw [ofJson?]
      refine (Json.within_eq hroom _ _).trans (parallelOfJson?_eq ?_)
      exact Json.items?_map_of_depth hpayload.1 fun b hb hdepth =>
        within_bindingOfJson? (by decide) hdepth (ih b hb)
  | join ids =>
      refine ofJson?_of_payload (by rw [toJson]) hdepth fun r hpayload => ?_
      simp only [Json.depth_object_le_succ_iff, List.forall_mem_cons] at hpayload
      have hroom := (Json.depth_array_le_iff.1 hpayload.1).1
      rw [ofJson?]
      refine (Json.within_eq hroom _ _).trans (joinOfJson?_eq ?_)
      exact Json.items?_map_of_depth hpayload.1 fun _ _ => within_reference
  | logStep id _ ih =>
      refine ofJson?_of_payload (by rw [toJson]) hdepth fun r hpayload => ?_
      simp only [Json.depth_object_le_succ_iff, List.forall_mem_cons] at hpayload
      rw [ofJson?]
      exact logStepOfJson?_eq (within_reference hpayload.1) (ih hpayload.2.1)
  | task hparts _ ih =>
      refine ofJson?_of_payload (by rw [toJson]) hdepth fun r hpayload => ?_
      obtain ⟨hdetails, hplan⟩ := depth_task hpayload
      rw [ofJson?]
      exact taskOfJson?_eq
        (fun part hpart => optional?_part (hparts part hpart) (hdetails part hpart) held)
        (ih hplan)
  | @logEntry details plan hparts htime _ ih =>
      have htree : toJson (.logEntry details plan)
          = .ofVariant "LogEntry" (details.toJson (.ofOption toJson plan)) := by
        cases plan <;> rfl
      refine ofJson?_of_payload htree hdepth fun r hpayload => ?_
      obtain ⟨hdetails, hplan⟩ := depth_logEntry hpayload
      rw [ofJson?]
      refine logEntryOfJson?_eq
        (fun part hpart => optional?_part (hparts part hpart) (hdetails part hpart) held)
        (optional?_time htime) (Json.optional?_ofOption toJson_ne_null fun node hnode => ?_)
      subst hnode
      exact ih node rfl hplan

/-- A node is read back from its JSON text, on one line or on many. -/
theorem ofJsonText?_render
    (h : node.Carries Value.Portable Instant.Stored)
    (hdepth : node.toJson.depth < 128)
    (pretty : Bool) :
    ofJsonText? (node.render { format := .json, pretty := pretty }) = some node := by
  have hread : decode? node.toJson = some node := by
    rw [decode?]
    exact ofJson?_toJson h (Nat.le_of_lt_succ hdepth) false
  rw [ofJsonText?, parse_render, Except.toOption, Option.bind_some, hread]

/-- A log entry of a leap second in a far year: its stage is `nil`, its result has equal keys, and
the rest is not set. -/
def leapEntry : Node :=
  .logEntry
    { EntryDetails.empty with
      stage := some .nil
      timestamp := some
        ⟨⟨12024, 2, 29, by decide, by decide⟩,
          ⟨23, 59, 60, 1000, by decide, by decide, by decide, by decide⟩⟩
      result := some
        (.map
          [(.keyword "k", .float (Float.ofBits 0x3FE0000000000000)),
            (.keyword "k", .string "\"\n")]) }
    none

/-- A leap second, a year of five digits and equal keys all come back. -/
theorem ofJsonText?_render_of_leapEntry :
    ofJsonText? (leapEntry.render { format := .json, pretty := true }) = some leapEntry := by
  refine ofJsonText?_render (.logEntry ?_ ?_ (by simp)) (by decide) true
  · have hplain : ∀ value : Value, value.parts = [] → value.FiniteNumber ∧ value.NumberComesBack →
        value.Portable := fun _ hparts here => .of_parts_eq_nil here hparts
    simp only [EntryDetails.parts, EntryDetails.empty, List.forall_mem_cons, Option.some.injEq,
      forall_eq', reduceCtorEq, false_implies, implies_true, List.not_mem_nil, true_and, and_true]
    refine ⟨hplain _ rfl ⟨trivial, trivial⟩, Value.everywhere_map.2 ⟨⟨trivial, trivial⟩, ?_⟩⟩
    simp only [List.forall_mem_cons, List.not_mem_nil, false_implies, implies_true, and_true]
    exact ⟨⟨hplain _ rfl ⟨trivial, trivial⟩, Value.portable_half⟩,
      hplain _ rfl ⟨trivial, trivial⟩, hplain _ rfl ⟨trivial, trivial⟩⟩
  · rintro t ⟨⟩
    exact show Instant.inStoredYears _ = true by decide

end Reading

end Node

end TaskTree
