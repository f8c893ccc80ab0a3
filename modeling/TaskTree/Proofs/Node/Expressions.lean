import TaskTree.Proofs.Node.WellFormed

/-!
# The expressions in a value

When a value is understood as a program, some of its parts are understood in
turn: the items of a call, the arguments of a special form that are not names,
the plan of a task.  `Value.expressions` lists them.

What is understood can be given back as a value again.  All that is lost on the
way are entries of tasks: a task keeps its known keys, each with the value of
its first entry, in a fixed order.  `Value.normalized` does this to every task at
the place of an expression, at every depth, and to nothing else.

**Results.**
* `Value.Denotes.eq_normalized`: what a value denotes stands for the
  normalized value.
* `Value.TaskFree.normalized_eq`: a value without tasks among its expressions is
  normalized already.
* `Node.toValue_eq_normalized`: both together, for what `Node.ofValue` accepts.
-/

namespace TaskTree

section Expressions

/-- The expressions among names and expressions in turn. -/
def Value.flatExpressions : List Value → List Value
  | _ :: expr :: rest => expr :: flatExpressions rest
  | _ => []

/-- The expressions of vectors of name and expression. -/
def Value.pairedExpressions : List Value → List Value
  | .vector [_, expr] :: rest => expr :: pairedExpressions rest
  | _ :: rest => pairedExpressions rest
  | [] => []

/-- The parts of a value that are understood as programs in turn, in order. -/
def Value.expressions : Value → List Value
  | .list (head :: args) =>
      match SpecialForm.ofHead? head, args with
      | none, args => head :: args
      | some .definition, [_, value] => [value]
      | some .letBinding, .vector group :: body => flatExpressions group ++ body
      | some .conditional, [condition, thenBranch, elseBranch] =>
          [condition, thenBranch, elseBranch]
      | some .function, _ :: body => body
      | some .sequence, body => body
      | some .parallel, [.vector group] => pairedExpressions group
      | some .logStep, [_, _, expr] => [expr]
      | some _, _ => []
  | .map entries =>
      if Entries.isTask entries then (Entries.keyword? entries "plan").toList else []
  | _ => []

/-- Neither the value nor an expression in it, at any depth, is the map of a task. -/
inductive Value.TaskFree : Value → Prop
  | intro
      {value : Value}
      (here : ∀ entries, value = .map entries → Entries.isTask entries = false)
      (expressions : ∀ expr ∈ value.expressions, TaskFree expr) :
      TaskFree value

end Expressions

section NormalForm

/-- The keys that are known of a task, in the order in which they are written. -/
def Entries.taskKeys : List String :=
  ["id", "source", "natural-language", "intent", "plan", "execution-log"]

/-- The first entry under each of the given keywords that is there. -/
def Entries.select (names : List String) (entries : Entries) : Entries :=
  names.filterMap fun name => (entries.keyword? name).map fun value => (.keyword name, value)

mutual

/-- The value in which every task at the place of an expression is left with its known keys. -/
def Value.normalized : Value → Value
  | .list (head :: args) =>
      match SpecialForm.ofHead? head, args with
      | none, args => .list (head.normalized :: Value.allNormalized args)
      | some .definition, [target, value] => .list [head, target, value.normalized]
      | some .letBinding, .vector group :: body =>
          .list (head :: .vector (Value.flatNormalized group) :: Value.allNormalized body)
      | some .conditional, [condition, thenBranch, elseBranch] =>
          .list [head, condition.normalized, thenBranch.normalized, elseBranch.normalized]
      | some .function, params :: body => .list (head :: params :: Value.allNormalized body)
      | some .sequence, body => .list (head :: Value.allNormalized body)
      | some .parallel, [.vector group] => .list [head, .vector (Value.pairedNormalized group)]
      | some .logStep, [marker, id, expr] => .list [head, marker, id, expr.normalized]
      | some _, args => .list (head :: args)
  | .map entries =>
      if Entries.isTask entries then
        .map (Entries.select Entries.taskKeys (Value.planNormalized entries))
      else .map entries
  | value => value
termination_by structural value => value

/-- Every one of some expressions, normalized. -/
def Value.allNormalized : List Value → List Value
  | [] => []
  | value :: values => value.normalized :: Value.allNormalized values
termination_by structural values => values

/-- Names and expressions in turn, the expressions normalized. -/
def Value.flatNormalized : List Value → List Value
  | name :: expr :: rest => name :: expr.normalized :: Value.flatNormalized rest
  | rest => rest
termination_by structural items => items

/-- Vectors of name and expression, the expressions normalized. -/
def Value.pairedNormalized : List Value → List Value
  | .vector [name, expr] :: rest => .vector [name, expr.normalized] :: Value.pairedNormalized rest
  | item :: rest => item :: Value.pairedNormalized rest
  | [] => []
termination_by structural items => items

/-- The entries of a task, every plan among them normalized. -/
def Value.planNormalized : List (Value × Value) → List (Value × Value)
  | [] => []
  | (key, value) :: entries =>
      (key, if key.isKeyword "plan" then value.normalized else value)
        :: Value.planNormalized entries
termination_by structural entries => entries

end

theorem Value.allNormalized_eq_map
    (values : List Value) :
    allNormalized values = values.map normalized := by
  induction values with
  | nil => rfl
  | cons value values ih => rw [allNormalized, ih, List.map_cons]

@[simp] theorem Entries.select_nil
    (entries : Entries) :
    entries.select [] = [] := by
  rfl

@[simp] theorem Entries.select_cons
    (name : String) (names : List String) (entries : Entries) :
    entries.select (name :: names) =
      Entries.optional name (entries.keyword? name) ++ entries.select names := by
  cases hfound : entries.keyword? name <;> simp [select, hfound, Entries.optional]

theorem Entries.keyword?_planNormalized
    (entries : Entries) (name : String) :
    Entries.keyword? (Value.planNormalized entries) name =
      if name = "plan" then (entries.keyword? name).map Value.normalized
      else entries.keyword? name := by
  induction entries with
  | nil => simp [Value.planNormalized, keyword?]
  | cons entry entries ih =>
      rcases entry with ⟨key, value⟩
      simp only [Value.planNormalized, keyword?, ih]
      by_cases hkey : key.isKeyword name = true
      · obtain rfl := Value.isKeyword_iff.1 hkey
        by_cases hplan : name = "plan" <;>
          simp [hplan, Value.isKeyword, Value.keywordName?]
      · simp only [if_neg hkey]

end NormalForm

section GivenBack

variable {es : List (Value × Node)} {bindings : List (Symbol × Value × Node)}

theorem Node.toValues_eq_allNormalized
    (h : ∀ e ∈ es, e.2.toValue = e.1.normalized) :
    Node.toValues (es.map Prod.snd) = Value.allNormalized (es.map Prod.fst) := by
  rw [Node.toValues_eq_map, Value.allNormalized_eq_map, List.map_map, List.map_map]
  exact List.map_congr_left h

theorem Node.flatBindings_eq_flatNormalized
    (h : ∀ b ∈ bindings, b.2.2.toValue = b.2.1.normalized) :
    Node.flatBindings (Node.boundNodes bindings)
      = Value.flatNormalized (Value.flatItems bindings) := by
  induction bindings with
  | nil => rfl
  | cons b bindings ih =>
      obtain ⟨hb, h⟩ := List.forall_mem_cons.1 h
      have htail := ih h
      simp only [Node.boundNodes, Value.flatItems] at htail
      simp only [Node.boundNodes, Value.flatItems, List.map_cons, List.flatMap_cons,
        List.cons_append, List.nil_append, Node.flatBindings, Value.flatNormalized, hb, htail]

theorem Node.pairedBindings_eq_pairedNormalized
    (h : ∀ b ∈ bindings, b.2.2.toValue = b.2.1.normalized) :
    Node.pairedBindings (Node.boundNodes bindings)
      = Value.pairedNormalized (Value.pairedItems bindings) := by
  induction bindings with
  | nil => rfl
  | cons b bindings ih =>
      obtain ⟨hb, h⟩ := List.forall_mem_cons.1 h
      have htail := ih h
      simp only [Node.boundNodes, Value.pairedItems] at htail
      simp only [Node.boundNodes, Value.pairedItems, List.map_cons, Node.pairedBindings,
        Value.pairedNormalized, hb, htail]

/-- The map that is written for a task holds its known keys, the plan normalized. -/
theorem TaskDetails.entries_ofEntries
    {entries : Entries} {plan : Value}
    (hplan : entries.keyword? "plan" = some plan) :
    (TaskDetails.ofEntries entries).entries plan.normalized
      = Entries.select Entries.taskKeys (Value.planNormalized entries) := by
  have hwritten : [(Value.keyword "plan", plan.normalized)]
      = Entries.optional "plan" (some plan.normalized) := rfl
  simp [TaskDetails.entries, TaskDetails.ofEntries, Entries.taskKeys,
    Entries.keyword?_planNormalized, hplan, hwritten]

/-- What a value denotes stands for the normalized value. -/
theorem Value.Denotes.eq_normalized
    {value : Value} {node : Node}
    (h : value.Denotes node) :
    node.toValue = value.normalized := by
  induction h with
  | literal hself =>
      cases hself with
      | map htask => simp [Node.toValue, Value.normalized, htask]
      | _ => rfl
  | symbol hnamed => rfl
  | @call head args hhead _ ih =>
      have hitems := @Node.toValues_eq_allNormalized (head :: args) ih
      rw [Value.normalized.eq_1 _ _ (SpecialForm.ofHead?_eq_none_iff.2 hhead), Node.toValue]
      exact congrArg Value.list hitems
  | sequence _ ih =>
      simp only [Node.toValue, SpecialForm.applied, Node.toValues_eq_allNormalized ih]
      rfl
  | definition _ _ ih =>
      simp only [Node.toValue, SpecialForm.applied, ih]
      rfl
  | letBinding _ _ _ ihBindings ihBody =>
      simp only [Node.toValue, SpecialForm.applied, Node.toValues_eq_allNormalized ihBody,
        Node.flatBindings_eq_flatNormalized ihBindings]
      rfl
  | conditional _ _ _ ihc iht ihe =>
      simp only [Node.toValue, SpecialForm.applied, ihc, iht, ihe]
      rfl
  | function _ _ ih =>
      simp only [Node.toValue, SpecialForm.applied, Node.toValues_eq_allNormalized ih]
      rfl
  | parallel _ _ ih =>
      simp only [Node.toValue, SpecialForm.applied, Node.pairedBindings_eq_pairedNormalized ih]
      rfl
  | join _ => rfl
  | logStep _ _ ih =>
      simp only [Node.toValue, SpecialForm.applied, ih]
      rfl
  | @task entries plan node hid hplan _ ih =>
      have htask : entries.isTask = true := by
        simp [Entries.isTask, hid, Entries.hasKeyword.eq_def entries "plan", hplan]
      simp only [Node.toValue, ih, Value.normalized, htask, if_true,
        TaskDetails.entries_ofEntries hplan]

end GivenBack

section TaskFree

theorem Value.allNormalized_eq_self
    {values : List Value}
    (h : ∀ value ∈ values, value.normalized = value) :
    allNormalized values = values := by
  rw [allNormalized_eq_map]
  exact (List.map_congr_left h).trans (List.map_id' values)

theorem Value.flatNormalized_eq_self
    {items : List Value}
    (h : ∀ expr ∈ flatExpressions items, expr.normalized = expr) :
    flatNormalized items = items := by
  fun_induction flatExpressions items with
  | case1 name expr rest ih =>
      obtain ⟨hexpr, h⟩ := List.forall_mem_cons.1 h
      rw [flatNormalized, hexpr, ih h]
  | case2 items hitems =>
      unfold flatNormalized
      split
      · exact absurd rfl (hitems _ _ _)
      · rfl

theorem Value.pairedNormalized_eq_self
    {items : List Value}
    (h : ∀ expr ∈ pairedExpressions items, expr.normalized = expr) :
    pairedNormalized items = items := by
  fun_induction pairedExpressions items with
  | case1 name expr rest ih =>
      obtain ⟨hexpr, h⟩ := List.forall_mem_cons.1 h
      rw [pairedNormalized, hexpr, ih h]
  | case2 item rest hitem ih => rw [pairedNormalized.eq_2 _ _ hitem, ih h]
  | case3 => rfl

/-- A value whose expressions are normalized already, and that is no task, is normalized. -/
theorem Value.normalized_eq_self
    {value : Value}
    (htask : ∀ entries, value = .map entries → Entries.isTask entries = false)
    (h : ∀ expr ∈ value.expressions, expr.normalized = expr) :
    value.normalized = value := by
  fun_cases Value.expressions value with
  | case1 head args hform =>
      simp only [expressions, hform, List.forall_mem_cons] at h
      simp only [normalized, hform, h.1, allNormalized_eq_self h.2]
  | case2 head target value hform =>
      simp only [expressions, hform, List.forall_mem_singleton] at h
      simp only [normalized, hform, h]
  | case3 head group body hform =>
      simp only [expressions, hform, List.forall_mem_append] at h
      simp only [normalized, hform, flatNormalized_eq_self h.1, allNormalized_eq_self h.2]
  | case4 head condition thenBranch elseBranch hform =>
      simp only [expressions, hform, List.forall_mem_cons] at h
      simp only [normalized, hform, h.1, h.2.1, h.2.2.1]
  | case5 head params body hform =>
      simp only [expressions, hform] at h
      simp only [normalized, hform, allNormalized_eq_self h]
  | case6 head body hform =>
      simp only [expressions, hform] at h
      simp only [normalized, hform, allNormalized_eq_self h]
  | case7 head group hform =>
      simp only [expressions, hform] at h
      simp only [normalized, hform, pairedNormalized_eq_self h]
  | case8 head marker id expr hform =>
      simp only [expressions, hform, List.forall_mem_singleton] at h
      simp only [normalized, hform, h]
  | case9 head args form hsequence hform =>
      -- a special form without expressions, or with arguments that it does not accept
      rw [normalized.eq_9]
      all_goals assumption
  | case10 entries hisTask =>
      rw [htask entries rfl] at hisTask
      cases hisTask
  | case11 entries hisTask => rw [normalized, if_neg hisTask]
  | case12 _ hlist hmap => rw [normalized.eq_11 _ hlist hmap]

/-- A value without tasks among its expressions is normalized already. -/
theorem Value.TaskFree.normalized_eq
    {value : Value}
    (h : value.TaskFree) :
    value.normalized = value := by
  induction h with
  | intro here _ ih => exact normalized_eq_self here ih

/-- What was understood is given back up to what its tasks do not keep, and as it was if there is
no task in it. -/
theorem Node.toValue_eq_normalized
    {value : Value} {node : Node}
    (h : Node.ofValue value = .ok node) :
    node.toValue = value.normalized ∧ (value.TaskFree → node.toValue = value) := by
  have hnormalized := (Node.ofValue_eq_ok_iff.1 h).eq_normalized
  exact ⟨hnormalized, fun hfree => hnormalized.trans hfree.normalized_eq⟩

/-- A task inside a binding loses an unknown and a repeated key and is put in order; a task inside
a vector is no expression and stays as it is. -/
theorem Node.toValue_eq_normalized_of_tasks :
    (Node.ofValue
          (.list
            [.symbol "let",
              .vector
                [.symbol "t",
                  .map
                    [(.keyword "note", .nil), (.keyword "plan", .list [.symbol "f"]),
                      (.keyword "id", .string "t"), (.keyword "plan", .nil)]],
              .symbol "t"]) =
        .ok
          (.letBinding
            [(⟨"t"⟩, .task ⟨some (.string "t"), none, none, none, none⟩ (.call [.symbol ⟨"f"⟩]))]
            [.symbol ⟨"t"⟩]) ∧
      Node.toValue
          (.letBinding
            [(⟨"t"⟩, .task ⟨some (.string "t"), none, none, none, none⟩ (.call [.symbol ⟨"f"⟩]))]
            [.symbol ⟨"t"⟩]) =
        .list
          [.symbol "let",
            .vector
              [.symbol "t",
                .map [(.keyword "id", .string "t"), (.keyword "plan", .list [.symbol "f"])]],
            .symbol "t"]) ∧
    (Node.ofValue (.vector [.map [(.keyword "plan", .nil), (.keyword "id", .nil)]]) =
        .ok (.literal (.vector [.map [(.keyword "plan", .nil), (.keyword "id", .nil)]])) ∧
      Node.toValue (.literal (.vector [.map [(.keyword "plan", .nil), (.keyword "id", .nil)]])) =
        .vector [.map [(.keyword "plan", .nil), (.keyword "id", .nil)]]) := by
  refine ⟨⟨?binding, (Node.toValue_eq_normalized ?binding).1⟩,
    ⟨?vector, (Node.toValue_eq_normalized ?vector).2 ?free⟩⟩
  case binding => rfl
  case vector => rfl
  case free => exact ⟨by simp, by simp [Value.expressions]⟩

end TaskFree

end TaskTree
