import TaskTree.Proofs.Node.Denotes

/-!
# Nodes that give themselves back

A node stands for a value, `Node.toValue`, but not every node is what its value
is understood as: a call of nothing, a literal list or a task without an
identifier are not.  `Node.WellFormed` names the nodes for which it works out.

**Results.**
* `Value.Denotes.wellFormed`: whatever a value is understood as is well-formed.
* `Node.WellFormed.denotes_toValue`: the value of a well-formed node denotes it.
* `Node.ofValue_toValue_of_ofValue`: giving back what was understood and
  understanding it again changes nothing.
* `Node.ofValue_toValue_iff_wellFormed`: the well-formed nodes are exactly those
  that are understood again from their own values.
-/

namespace TaskTree

/-- A node that is what its own value is understood as. -/
inductive Node.WellFormed : Node → Prop
  | literal
      {value : Value}
      (hself : value.SelfEvaluating) :
      WellFormed (.literal value)
  | symbol
      {s : Symbol}
      (hnamed : s.Named) :
      WellFormed (.symbol s)
  | call
      {head : Node} {args : List Node}
      (hhead : ∀ form : SpecialForm, head ≠ .symbol ⟨form.name⟩)
      (h : ∀ e ∈ head :: args, WellFormed e) :
      WellFormed (.call (head :: args))
  | sequence
      {body : List Node}
      (h : ∀ e ∈ body, WellFormed e) :
      WellFormed (.sequence body)
  | definition
      {target : Symbol} {value : Node}
      (hnamed : target.Named)
      (h : WellFormed value) :
      WellFormed (.definition target value)
  | letBinding
      {bindings : List (Symbol × Node)} {body : List Node}
      (hnamed : ∀ b ∈ bindings, b.1.Named)
      (hexpr : ∀ b ∈ bindings, WellFormed b.2)
      (h : ∀ e ∈ body, WellFormed e) :
      WellFormed (.letBinding bindings body)
  | conditional
      {c t e : Node}
      (hcondition : WellFormed c)
      (hthen : WellFormed t)
      (helse : WellFormed e) :
      WellFormed (.conditional c t e)
  | function
      {params : List Symbol} {body : List Node}
      (hnamed : ∀ p ∈ params, p.Named)
      (h : ∀ e ∈ body, WellFormed e) :
      WellFormed (.function params body)
  | parallel
      {bindings : List (Symbol × Node)}
      (hnamed : ∀ b ∈ bindings, b.1.Named)
      (hexpr : ∀ b ∈ bindings, WellFormed b.2) :
      WellFormed (.parallel bindings)
  | join
      {ids : List Symbol}
      (hnamed : ∀ id ∈ ids, id.Named) :
      WellFormed (.join ids)
  | logStep
      {id : Symbol} {expr : Node}
      (hnamed : id.Named)
      (h : WellFormed expr) :
      WellFormed (.logStep id expr)
  | task
      {details : TaskDetails} {plan : Node}
      (hid : details.id.isSome = true)
      (h : WellFormed plan) :
      WellFormed (.task details plan)

section Parts

theorem Node.toValues_eq_map
    (nodes : List Node) :
    Node.toValues nodes = nodes.map Node.toValue := by
  induction nodes with
  | nil => rfl
  | cons node nodes ih => simp only [Node.toValues, ih, List.map_cons]

/-- Each binding with the value of its expression. -/
def Node.withValues (bindings : List (Symbol × Node)) : List (Symbol × Value × Node) :=
  bindings.map fun b => (b.1, b.2.toValue, b.2)

@[simp] theorem Node.boundNodes_withValues
    (bindings : List (Symbol × Node)) :
    Node.boundNodes (Node.withValues bindings) = bindings := by
  simp [Node.boundNodes, Node.withValues, Function.comp_def]

theorem Node.flatBindings_eq
    (bindings : List (Symbol × Node)) :
    Node.flatBindings bindings = Value.flatItems (Node.withValues bindings) := by
  induction bindings with
  | nil => rfl
  | cons b bindings ih =>
      simp only [Node.flatBindings, ih]
      rfl

theorem Node.pairedBindings_eq
    (bindings : List (Symbol × Node)) :
    Node.pairedBindings bindings = Value.pairedItems (Node.withValues bindings) := by
  induction bindings with
  | nil => rfl
  | cons b bindings ih =>
      simp only [Node.pairedBindings, ih]
      rfl

theorem Node.forall_mem_withValues
    {P : Symbol × Value × Node → Prop} {bindings : List (Symbol × Node)} :
    (∀ b ∈ Node.withValues bindings, P b) ↔ ∀ b ∈ bindings, P (b.1, b.2.toValue, b.2) :=
  List.forall_mem_map

/-- Each node with its value. -/
def Node.pairedWithValues (nodes : List Node) : List (Value × Node) :=
  nodes.map fun node => (node.toValue, node)

@[simp] theorem Node.map_fst_pairedWithValues
    (nodes : List Node) :
    (Node.pairedWithValues nodes).map Prod.fst = Node.toValues nodes := by
  simp [Node.pairedWithValues, Node.toValues_eq_map]

@[simp] theorem Node.map_snd_pairedWithValues
    (nodes : List Node) :
    (Node.pairedWithValues nodes).map Prod.snd = nodes := by
  simp [Node.pairedWithValues, Function.comp_def]

theorem Node.forall_mem_pairedWithValues
    {P : Value × Node → Prop} {nodes : List Node} :
    (∀ e ∈ Node.pairedWithValues nodes, P e) ↔ ∀ node ∈ nodes, P (node.toValue, node) :=
  List.forall_mem_map

end Parts

section TaskMaps

@[simp] theorem Entries.keyword?_append
    (a b : Entries) (name : String) :
    Entries.keyword? (a ++ b) name = (a.keyword? name).or (b.keyword? name) := by
  induction a with
  | nil => simp [Entries.keyword?]
  | cons entry a ih =>
      rcases entry with ⟨key, value⟩
      simp only [List.cons_append, Entries.keyword?]
      split
      · rfl
      · exact ih

@[simp] theorem Entries.keyword?_cons_keyword
    (key name : String) (value : Value) (entries : Entries) :
    Entries.keyword? ((.keyword key, value) :: entries) name =
      if key = name then some value else entries.keyword? name := by
  simp [Entries.keyword?, Value.isKeyword, Value.keywordName?]

@[simp] theorem Entries.keyword?_optional
    (key name : String) (value : Option Value) :
    (Entries.optional key value).keyword? name = if key = name then value else none := by
  cases value <;> simp [Entries.optional, Entries.keyword?]

/-- The plan of a task is found in its map. -/
theorem TaskDetails.keyword?_plan_entries
    (details : TaskDetails) (plan : Value) :
    (details.entries plan).keyword? "plan" = some plan := by
  simp [TaskDetails.entries]

/-- What is known of a task is found in its map. -/
theorem TaskDetails.ofEntries_entries
    (details : TaskDetails) (plan : Value) :
    TaskDetails.ofEntries (details.entries plan) = details := by
  simp [TaskDetails.ofEntries, TaskDetails.entries]

theorem TaskDetails.hasKeyword_id_entries
    (details : TaskDetails) (plan : Value) :
    (details.entries plan).hasKeyword "id" = details.id.isSome := by
  simp [Entries.hasKeyword, TaskDetails.entries]

end TaskMaps

section RoundTrip

/-- The value of a well-formed node is a symbol only if the node is. -/
theorem Node.WellFormed.eq_symbol_of_toValue
    {node : Node} {name : String}
    (h : node.WellFormed)
    (hvalue : node.toValue = .symbol name) :
    node = .symbol ⟨name⟩ := by
  cases h with
  | literal hself =>
      simp only [Node.toValue] at hvalue
      subst hvalue
      cases hself
  | symbol _ =>
      cases hvalue
      rfl
  | _ => cases hvalue

/-- The value of a well-formed node denotes that node. -/
theorem Node.WellFormed.denotes_toValue
    {node : Node}
    (h : node.WellFormed) :
    node.toValue.Denotes node := by
  induction h with
  | literal hself =>
      simp only [Node.toValue]
      exact .literal hself
  | symbol hnamed =>
      simp only [Node.toValue]
      exact .symbol hnamed
  | @call head args hhead hwell ih =>
      obtain ⟨ihHead, ihArgs⟩ := List.forall_mem_cons.1 ih
      have hunreserved : head.toValue.Unreserved := by
        intro form hvalue
        exact hhead form ((hwell head List.mem_cons_self).eq_symbol_of_toValue hvalue)
      have := @Value.Denotes.call (head.toValue, head) (Node.pairedWithValues args) hunreserved
        (List.forall_mem_cons.2 ⟨ihHead, Node.forall_mem_pairedWithValues.2 ihArgs⟩)
      simpa [Node.toValue, Node.toValues] using this
  | sequence _ ih =>
      have := Value.Denotes.sequence (Node.forall_mem_pairedWithValues.2 ih)
      simpa [Node.toValue] using this
  | definition hnamed _ ih =>
      simp only [Node.toValue]
      exact .definition hnamed ih
  | letBinding hnamed _ _ ihBindings ihBody =>
      have := Value.Denotes.letBinding (Node.forall_mem_withValues.2 hnamed)
        (Node.forall_mem_withValues.2 ihBindings) (Node.forall_mem_pairedWithValues.2 ihBody)
      simpa [Node.toValue, Node.flatBindings_eq] using this
  | conditional _ _ _ ihc iht ihe =>
      simp only [Node.toValue]
      exact .conditional ihc iht ihe
  | function hnamed _ ih =>
      have := Value.Denotes.function hnamed (Node.forall_mem_pairedWithValues.2 ih)
      simpa [Node.toValue] using this
  | parallel hnamed _ ih =>
      have := Value.Denotes.parallel (Node.forall_mem_withValues.2 hnamed)
        (Node.forall_mem_withValues.2 ih)
      simpa [Node.toValue, Node.pairedBindings_eq] using this
  | join hnamed =>
      simp only [Node.toValue]
      exact .join hnamed
  | logStep hnamed _ ih =>
      simp only [Node.toValue]
      exact .logStep hnamed ih
  | @task details plan hid _ ih =>
      have := Value.Denotes.task ((details.hasKeyword_id_entries plan.toValue).trans hid)
        (details.keyword?_plan_entries plan.toValue) ih
      simpa [Node.toValue, TaskDetails.ofEntries_entries] using this

/-- Whatever a value denotes is well-formed. -/
theorem Value.Denotes.wellFormed
    {value : Value} {node : Node}
    (h : value.Denotes node) :
    node.WellFormed := by
  induction h with
  | literal hself => exact .literal hself
  | symbol hnamed => exact .symbol hnamed
  | @call head args hhead h ih =>
      refine .call ?_ ?_
      · intro form heq
        have hdenotes := h head List.mem_cons_self
        rw [heq] at hdenotes
        cases hvalue : head.1 <;> rw [hvalue] at hdenotes <;> cases hdenotes
        exact hhead form hvalue
      · obtain ⟨ihHead, ihArgs⟩ := List.forall_mem_cons.1 ih
        exact List.forall_mem_cons.2 ⟨ihHead, List.forall_mem_map.2 ihArgs⟩
  | sequence _ ih => exact .sequence (List.forall_mem_map.2 ih)
  | definition hnamed _ ih => exact .definition hnamed ih
  | letBinding hnamed _ _ ihBindings ihBody =>
      exact .letBinding (List.forall_mem_map.2 hnamed) (List.forall_mem_map.2 ihBindings)
        (List.forall_mem_map.2 ihBody)
  | conditional _ _ _ ihc iht ihe => exact .conditional ihc iht ihe
  | function hnamed _ ih => exact .function hnamed (List.forall_mem_map.2 ih)
  | parallel hnamed _ ih =>
      exact .parallel (List.forall_mem_map.2 hnamed) (List.forall_mem_map.2 ih)
  | join hnamed => exact .join hnamed
  | logStep hnamed _ ih => exact .logStep hnamed ih
  | task hid _ _ ih => exact .task hid ih

/-- A node is understood from its own value exactly if it is well-formed. -/
theorem Node.ofValue_toValue_iff_wellFormed
    (node : Node) :
    Node.ofValue node.toValue = .ok node ↔ node.WellFormed := by
  rw [Node.ofValue_eq_ok_iff]
  exact ⟨Value.Denotes.wellFormed, Node.WellFormed.denotes_toValue⟩

/-- Understanding the value of what was understood gives the same node again. -/
theorem Node.ofValue_toValue_of_ofValue
    {value : Value} {node : Node}
    (h : Node.ofValue value = .ok node) :
    Node.ofValue node.toValue = .ok node := by
  have hdenotes := Node.ofValue_eq_ok_iff.1 h
  exact Node.ofValue_eq_ok_iff.2 hdenotes.wellFormed.denotes_toValue

/-- A task with a repeated and an unknown key. -/
theorem Node.ofValue_toValue_of_task :
    Node.ofValue
        (.map
          [(.keyword "note", .nil), (.keyword "id", .string "t"),
            (.keyword "plan",
              .list [.symbol "parallel", .vector [.vector [.symbol "p", .list [.symbol "f"]]]]),
            (.keyword "id", .nil)]) =
      .ok
        (.task ⟨some (.string "t"), none, none, none, none⟩
          (.parallel [(⟨"p"⟩, .call [.symbol ⟨"f"⟩])])) ∧
    Node.ofValue
        (Node.toValue
          (.task ⟨some (.string "t"), none, none, none, none⟩
            (.parallel [(⟨"p"⟩, .call [.symbol ⟨"f"⟩])]))) =
      .ok
        (.task ⟨some (.string "t"), none, none, none, none⟩
          (.parallel [(⟨"p"⟩, .call [.symbol ⟨"f"⟩])])) := by
  refine ⟨?understood, Node.ofValue_toValue_of_ofValue ?understood⟩
  rfl

end RoundTrip

end TaskTree
