import TaskTree.Proofs.Node.Acceptable

/-!
# A value taken apart into steps and a frame

To understand a value is to take its steps from left to right, and to put the nodes
that they give into a frame.  A step is an expression that is to be understood, or
the refusal of the value at the place where the refusal is noticed; the frame is
what the value says besides its expressions.  Whatever is said of errors is about
the steps alone, whatever is said of nodes about frames.

**Results.**
* `Node.corresponds_form`: a special form is understood by the steps of its arguments.
* `Node.corresponds_ofValue`: a value is understood by its steps, put into its frame.
-/

namespace TaskTree

section Steps

/-- An expression that is understood next, or the refusal of the value. -/
abbrev Step := Except ParseError Value

/-- The steps of names and expressions in turn. -/
def flatSteps (unnamed : ParseError) : List Value → List Step
  | name :: expr :: rest =>
      match Symbol.ofValue? name with
      | some _ => .ok expr :: flatSteps unnamed rest
      | none => [.error unnamed]
  | _ => []

/-- The steps of vectors of name and expression. -/
def pairedSteps (unnamed : ParseError) : List Value → List Step
  | [] => []
  | .vector [name, expr] :: rest =>
      match Symbol.ofValue? name with
      | some _ => .ok expr :: pairedSteps unnamed rest
      | none => [.error unnamed]
  | _ :: _ => [.error unnamed]

/-- The arguments of a special form, arranged by what is expected at their places. -/
inductive Arguments where
  /-- Expressions only. -/
  | expressions (body : List Value)
  /-- Names only. -/
  | names (ids : List Value)
  /-- A name and its expression. -/
  | named (name expr : Value)
  /-- Names and expressions in turn, and the expressions after them. -/
  | flat (group body : List Value)
  /-- Vectors of name and expression. -/
  | paired (group : List Value)
  /-- Names, and the expressions after them. -/
  | params (params body : List Value)

/-- The arguments of a special form in their places, if they are as many as the form has and the
vectors and the marker that it requires are there. -/
def SpecialForm.arrange? (form : SpecialForm) (args : List Value) : Option Arguments :=
  match form, args with
  | .sequence, body => some (.expressions body)
  | .join, ids => some (.names ids)
  | .definition, [target, value] => some (.named target value)
  | .letBinding, .vector group :: body =>
      if group.length % 2 = 0 then some (.flat group body) else none
  | .conditional, [condition, thenBranch, elseBranch] =>
      some (.expressions [condition, thenBranch, elseBranch])
  | .function, .vector params :: body => some (.params params body)
  | .parallel, [.vector group] => some (.paired group)
  | .logStep, [marker, id, expr] =>
      if marker.isKeyword "id" then some (.named id expr) else none
  | _, _ => none

/-- The steps of arranged arguments. -/
def Arguments.steps (refusal : ParseError) : Arguments → List Step
  | .expressions body => body.map .ok
  | .names ids =>
      match Symbol.ofValues? ids with
      | some _ => []
      | none => [.error refusal]
  | .named name expr =>
      match Symbol.ofValue? name with
      | some _ => [.ok expr]
      | none => [.error refusal]
  | .flat group body => flatSteps refusal group ++ body.map .ok
  | .paired group => pairedSteps refusal group
  | .params ids body =>
      match Symbol.ofValues? ids with
      | some _ => body.map .ok
      | none => [.error refusal]

/-- The steps of a special form's arguments. -/
def SpecialForm.steps (form : SpecialForm) (refusal : ParseError) (args : List Value) :
    List Step :=
  match form.arrange? args with
  | some arguments => arguments.steps refusal
  | none => [.error refusal]

/-- What is met from left to right when a value is understood. -/
def Value.steps : Value → List Step
  | .symbol name => if name.isEmpty then [.error ⟨.unparseable, .symbol name⟩] else []
  | .list [] => [.error ⟨.emptyList, .list []⟩]
  | .list (head :: args) =>
      match SpecialForm.ofHead? head with
      | none => (head :: args).map .ok
      | some form => form.steps (.ofForm form head args) args
  | .map entries =>
      if Entries.isTask entries then
        match Entries.keyword? entries "plan" with
        | some plan => [.ok plan]
        | none => [.error ⟨.unparseable, .map entries⟩]
      else []
  | _ => []

/-- Understands the expression of a step. -/
def Step.run (step : Step) : Except ParseError Node :=
  step >>= Node.ofValue

end Steps

section Frames

/-- The names among names and expressions in turn. -/
def flatNames : List Value → List Symbol
  | name :: _ :: rest => (Symbol.ofValue? name).toList ++ flatNames rest
  | _ => []

/-- The names in vectors of name and expression. -/
def pairedNames : List Value → List Symbol
  | .vector [name, _] :: rest => (Symbol.ofValue? name).toList ++ pairedNames rest
  | _ => []

/-- The names that arranged arguments give besides their expressions. -/
def Arguments.given : Arguments → List Symbol
  | .expressions _ => []
  | .names ids => (Symbol.ofValues? ids).getD []
  | .named name _ => (Symbol.ofValue? name).toList
  | .flat group _ => flatNames group
  | .paired group => pairedNames group
  | .params ids _ => (Symbol.ofValues? ids).getD []

/-- The names that a special form's arguments give. -/
def SpecialForm.names (form : SpecialForm) (args : List Value) : List Symbol :=
  match form.arrange? args with
  | some arguments => arguments.given
  | none => []

/-- What a value says besides its expressions. -/
inductive Frame where
  | literal (value : Value)
  | symbol (symbol : Symbol)
  | call
  | form (form : SpecialForm) (names : List Symbol)
  | task (details : TaskDetails)

/-- The frame of a value. -/
def Value.frame : Value → Frame
  | .symbol name => .symbol ⟨name⟩
  | .list (head :: args) =>
      match SpecialForm.ofHead? head with
      | none => .call
      | some form => .form form (form.names args)
  | .map entries =>
      if Entries.isTask entries then .task (TaskDetails.ofEntries entries)
      else .literal (.map entries)
  | value => .literal value

/-- The node of a special form with the given names and the nodes of its expressions.  With other
numbers of them than the form has there is none. -/
def SpecialForm.fill (form : SpecialForm) (names : List Symbol) (nodes : List Node) :
    Option Node :=
  match form, names, nodes with
  | .sequence, _, body => some (.sequence body)
  | .join, ids, _ => some (.join ids)
  | .definition, [target], [value] => some (.definition target value)
  | .letBinding, names, nodes =>
      some (.letBinding (names.zip nodes) (nodes.drop names.length))
  | .conditional, _, [condition, thenBranch, elseBranch] =>
      some (.conditional condition thenBranch elseBranch)
  | .function, params, body => some (.function params body)
  | .parallel, names, nodes => some (.parallel (names.zip nodes))
  | .logStep, [id], [expr] => some (.logStep id expr)
  | _, _, _ => none

/-- The frame with the nodes of its expressions put in. -/
def Frame.fill (frame : Frame) (nodes : List Node) : Option Node :=
  match frame, nodes with
  | .literal value, _ => some (.literal value)
  | .symbol s, _ => some (.symbol s)
  | .call, elements => some (.call elements)
  | .form f names, nodes => f.fill names nodes
  | .task details, [plan] => some (.task details plan)
  | .task _, _ => none

end Frames

section Filling

namespace Node

theorem corresponds_ofValues
    (values : List Value) :
    Corresponds Eq Eq ((values.map Except.ok).mapM Step.run) (ofValues values) := by
  induction values with
  | nil => exact .ok rfl
  | cons value values ih =>
      rw [List.map_cons, List.mapM_cons, ofValues]
      refine Corresponds.bind (.refl _) fun node node' hnode => ?_
      refine ih.bind fun nodes nodes' hnodes => .ok ?_
      rw [hnode, hnodes]

/-- The bindings that names and nodes make, if there are as many of both. -/
def Binds (names : List Symbol) (nodes : List Node) (bindings : List (Symbol × Node)) : Prop :=
  nodes.length = names.length ∧ names.zip nodes = bindings

theorem Binds.cons
    {names : List Symbol} {nodes : List Node} {bindings : List (Symbol × Node)}
    (h : Binds names nodes bindings)
    (name : Symbol) (node : Node) :
    Binds (name :: names) (node :: nodes) ((name, node) :: bindings) :=
  ⟨congrArg Nat.succ h.1, congrArg ((name, node) :: ·) h.2⟩

theorem Binds.zip_append
    {names : List Symbol} {nodes rest : List Node} {bindings : List (Symbol × Node)}
    (h : Binds names nodes bindings) :
    names.zip (nodes ++ rest) = bindings := by
  have hzip : (names ++ []).zip (nodes ++ rest) = names.zip nodes ++ [].zip rest :=
    List.zip_append h.1.symm
  rwa [List.append_nil, List.zip_nil_left, List.append_nil, h.2] at hzip

theorem Binds.drop_append
    {names : List Symbol} {nodes rest : List Node} {bindings : List (Symbol × Node)}
    (h : Binds names nodes bindings) :
    (nodes ++ rest).drop names.length = rest := by
  rw [← h.1, List.drop_left]

theorem corresponds_ofFlatBindings
    (unnamed : ParseError) (items : List Value) :
    Corresponds Eq (Binds (flatNames items)) ((flatSteps unnamed items).mapM Step.run)
      (ofFlatBindings unnamed items) := by
  fun_induction flatSteps unnamed items with
  | case1 name expr rest target htarget ih =>
      rw [List.mapM_cons, ofFlatBindings, htarget, flatNames, htarget]
      refine Corresponds.bind (.refl _) fun node node' hnode => ?_
      refine ih.bind fun nodes bindings hbinds => .ok ?_
      exact hnode ▸ hbinds.cons target node
  | case2 name expr rest htarget =>
      rw [ofFlatBindings, htarget]
      exact .error rfl
  | case3 items hitems =>
      rw [flatNames.eq_2 _ hitems, ofFlatBindings.eq_2 _ _ hitems]
      exact .ok ⟨rfl, rfl⟩

theorem corresponds_ofPairedBindings
    (unnamed : ParseError) (items : List Value) :
    Corresponds Eq (Binds (pairedNames items)) ((pairedSteps unnamed items).mapM Step.run)
      (ofPairedBindings unnamed items) := by
  fun_induction pairedSteps unnamed items with
  | case1 => exact .ok ⟨rfl, rfl⟩
  | case2 name expr rest target htarget ih =>
      rw [List.mapM_cons, ofPairedBindings, htarget, pairedNames, htarget]
      refine Corresponds.bind (.refl _) fun node node' hnode => ?_
      refine ih.bind fun nodes bindings hbinds => .ok ?_
      exact hnode ▸ hbinds.cons target node
  | case3 name expr rest htarget =>
      rw [ofPairedBindings, htarget]
      exact .error rfl
  | case4 item rest hitem =>
      rw [ofPairedBindings.eq_3 _ _ _ hitem]
      exact .error rfl

theorem corresponds_single
    (value : Value) :
    Corresponds Eq (fun nodes node => nodes = [node]) ([Except.ok value].mapM Step.run)
      (ofValue value) := by
  rw [List.mapM_cons, List.mapM_nil]
  change Corresponds _ _ (ofValue value >>= fun node => .ok [node]) _
  cases ofValue value with
  | ok node => exact .ok rfl
  | error e => exact .error rfl

/-- A special form is understood by the steps of its arguments. -/
theorem corresponds_form
    (form : SpecialForm) (args : List Value) :
    Corresponds Eq (fun nodes node => form.fill (form.names args) nodes = some node)
      ((form.steps (.ofForm form (.symbol form.name) args) args).mapM Step.run)
      (ofValue (form.applied args)) := by
  rw [SpecialForm.applied, ofValue_def, SpecialForm.steps, SpecialForm.names]
  simp only [SpecialForm.ofHead?_symbol]
  fun_cases SpecialForm.arrange? form args with
  | case1 _ =>
      simp only [Arguments.steps]
      refine (corresponds_ofValues args).and_then fun nodes body h => ?_
      simp only [SpecialForm.fill, h]
  | case2 _ =>
      simp only [Arguments.steps, Arguments.given]
      cases Symbol.ofValues? args with
      | some ids => exact .ok rfl
      | none => exact .error rfl
  | case3 target value =>
      simp only [Arguments.steps, Arguments.given]
      cases Symbol.ofValue? target with
      | some name =>
          refine (corresponds_single value).and_then fun nodes node h => ?_
          simp only [Option.toList_some, h, SpecialForm.fill]
      | none => exact .error rfl
  | case4 group body heven =>
      simp only [Arguments.steps, Arguments.given]
      -- the nodes of the bindings are as many as the names, which is where the body begins
      rw [if_pos heven, List.mapM_append]
      refine (corresponds_ofFlatBindings _ group).bind fun nodes bindings hbinds => ?_
      refine (corresponds_ofValues body).bind fun rest body h => .ok ?_
      simp only [SpecialForm.fill, hbinds.zip_append, hbinds.drop_append, h]
  | case5 group body hodd =>
      dsimp only
      rw [if_neg hodd]
      exact .error rfl
  | case6 condition thenBranch elseBranch =>
      simp only [Arguments.steps, List.map_cons, List.map_nil, List.mapM_cons, List.mapM_nil,
        bind_assoc]
      refine Corresponds.bind (.refl _) fun c c' hc => ?_
      refine Corresponds.bind (.refl _) fun t t' ht => ?_
      refine Corresponds.bind (.refl _) fun e e' he => .ok ?_
      simp only [hc, ht, he, SpecialForm.fill]
  | case7 params body =>
      simp only [Arguments.steps, Arguments.given]
      cases Symbol.ofValues? params with
      | some names =>
          refine (corresponds_ofValues body).and_then fun nodes body h => ?_
          simp only [SpecialForm.fill, Option.getD_some, h]
      | none => exact .error rfl
  | case8 group =>
      simp only [Arguments.steps, Arguments.given]
      refine (corresponds_ofPairedBindings _ group).and_then fun nodes bindings hbinds => ?_
      simp only [SpecialForm.fill, hbinds.2]
  | case9 marker id expr hmarker =>
      simp only [Arguments.steps, Arguments.given, hmarker]
      cases Symbol.ofValue? id with
      | some name =>
          refine (corresponds_single expr).and_then fun nodes node h => ?_
          simp only [Option.toList_some, h, SpecialForm.fill]
      | none => exact .error rfl
  | case10 marker id expr hmarker =>
      simp only [Bool.eq_false_iff.2 hmarker]
      exact .error rfl
  | case11 _ _ hsequence hjoin hdefinition hlet hconditional hfunction hparallel hlogStep =>
      cases form with
      | sequence => exact absurd rfl hsequence
      | join => exact absurd rfl hjoin
      | _ =>
        dsimp only
        split
        · simp_all
        · exact .error rfl

theorem ofPlan_eq
    (missing : ParseError) (entries : Entries) :
    ofPlan missing entries =
      match entries.keyword? "plan" with
      | some plan => ofValue plan
      | none => .error missing := by
  induction entries with
  | nil => rfl
  | cons entry entries ih =>
      rcases entry with ⟨key, value⟩
      by_cases hkey : key.isKeyword "plan" = true
      · simp only [ofPlan, Entries.keyword?, if_pos hkey]
      · simp only [ofPlan, Entries.keyword?, if_neg hkey, ih]

/-- A value is understood by its steps: as the first that fails, or as its frame with the nodes
that they give. -/
theorem corresponds_ofValue
    (value : Value) :
    Corresponds Eq (fun nodes node => value.frame.fill nodes = some node)
      (value.steps.mapM Step.run) (ofValue value) := by
  fun_cases Value.steps value with
  | case1 name hempty =>
      rw [ofValue_def]
      dsimp only
      rw [if_pos hempty]
      exact .error rfl
  | case2 name hname =>
      rw [ofValue_def]
      dsimp only
      rw [if_neg hname]
      exact .ok rfl
  | case3 => exact .error rfl
  | case4 head args hhead =>
      rw [ofValue_def]
      simp only [hhead, List.map_cons, List.mapM_cons]
      refine Corresponds.bind (.refl _) fun node node' hnode => ?_
      refine (corresponds_ofValues args).bind fun nodes nodes' hnodes => .ok ?_
      simp only [Value.frame, hhead, Frame.fill, hnode, hnodes]
  | case5 head args form hform =>
      obtain rfl := SpecialForm.ofHead?_eq_some_iff.1 hform
      simp only [Value.frame, hform, Frame.fill]
      exact corresponds_form form args
  | case6 entries htask plan hplan =>
      rw [ofValue_def]
      simp only [if_pos htask, ofPlan_eq, hplan]
      refine (corresponds_single plan).and_then fun nodes node h => ?_
      simp only [Value.frame, if_pos htask, h, Frame.fill]
  | case7 entries htask hplan =>
      rw [ofValue_def]
      simp only [if_pos htask, ofPlan_eq, hplan]
      exact .error rfl
  | case8 entries htask =>
      rw [ofValue_def]
      simp only [if_neg htask]
      refine .ok ?_
      simp only [Value.frame, if_neg htask, Frame.fill]
  | case9 value hsymbol hnil hlist hmap =>
      cases value with
      | symbol name => exact absurd rfl (hsymbol name)
      | list items =>
          cases items with
          | nil => exact absurd rfl hnil
          | cons head args => exact absurd rfl (hlist head args)
      | map entries => exact absurd rfl (hmap entries)
      | _ => exact .ok rfl

end Node

end Filling

end TaskTree
