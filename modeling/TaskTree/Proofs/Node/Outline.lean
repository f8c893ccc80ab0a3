import TaskTree.Proofs.Node.Equality
import TaskTree.Proofs.Node.Failure
import TaskTree.Proofs.Node.WellFormed

/-!
# Data does not matter to what is understood

Data at the place of an expression is carried along and never looked at, and so is what a
task says besides its plan.  The outline of a value is what is left when all such data is
replaced by `nil`; the outline of a node is the node without its data.  Understanding a
value and understanding its outline give the same outline, or the same reason of a refusal.
So values with one outline cannot be told apart by more than the data in the result.

A vector is data at the place of an expression, but a group of bindings or of parameters
elsewhere; the outline follows the places that `Node.ofValue` gives to the arguments of a
special form, also where there are too many or too few of them.

**Results.**
* `Value.outline_steps_and_frame`: the outline is taken apart into the outlines.
* `Node.ofValue_outline`: a value is understood as its outline is, up to data.
* `Node.ofValue_replaced`: replacing data, any number of times, changes nothing but data.
-/

namespace TaskTree

section Outlines

mutual

/-- The value with the data at the places of expressions left out. -/
def Value.outline : Value → Value
  | .symbol name => .symbol name
  | .list [] => .list []
  | .list (head :: args) =>
      match SpecialForm.ofHead? head, args with
      | none, args => .list (head.outline :: Value.allOutlined args)
      | some .sequence, body => .list (head :: Value.allOutlined body)
      | some .conditional, arms => .list (head :: Value.allOutlined arms)
      | some .definition, target :: exprs => .list (head :: target :: Value.allOutlined exprs)
      | some .function, params :: body => .list (head :: params :: Value.allOutlined body)
      | some .letBinding, .vector group :: body =>
          .list (head :: .vector (Value.flatOutlined group) :: Value.allOutlined body)
      | some .letBinding, group :: body => .list (head :: group :: Value.allOutlined body)
      | some .parallel, .vector group :: rest =>
          .list (head :: .vector (Value.pairedOutlined group) :: rest)
      | some .logStep, marker :: id :: exprs =>
          .list (head :: marker :: id :: Value.allOutlined exprs)
      | some _, args => .list (head :: args)
  | .map entries =>
      if Entries.isTask entries then
        .map [(.keyword "id", .nil), (.keyword "plan", Value.planOutlined entries)]
      else .nil
  | _ => .nil
termination_by structural value => value

/-- The outlines of some expressions. -/
def Value.allOutlined : List Value → List Value
  | [] => []
  | value :: values => value.outline :: Value.allOutlined values
termination_by structural values => values

/-- The outline of the plan of a task. -/
def Value.planOutlined : List (Value × Value) → Value
  | [] => .nil
  | (key, value) :: entries =>
      if key.isKeyword "plan" then value.outline else Value.planOutlined entries
termination_by structural entries => entries

/-- Names and expressions in turn, the expressions in outline. -/
def Value.flatOutlined : List Value → List Value
  | name :: expr :: rest => name :: expr.outline :: Value.flatOutlined rest
  | rest => rest
termination_by structural items => items

/-- Vectors of a name and expressions, the expressions in outline. -/
def Value.pairedOutlined : List Value → List Value
  | [] => []
  | .vector (name :: exprs) :: rest =>
      .vector (name :: Value.allOutlined exprs) :: Value.pairedOutlined rest
  | item :: rest => item :: Value.pairedOutlined rest
termination_by structural items => items

end

mutual

/-- The node without its data: literals are `nil`, and of a task only the plan is known. -/
def Node.outline : Node → Node
  | .literal _ => .literal .nil
  | .symbol s => .symbol s
  | .call elements => .call (Node.allOutlined elements)
  | .sequence body => .sequence (Node.allOutlined body)
  | .definition target value => .definition target value.outline
  | .letBinding bindings body =>
      .letBinding (Node.bindingsOutlined bindings) (Node.allOutlined body)
  | .conditional condition thenBranch elseBranch =>
      .conditional condition.outline thenBranch.outline elseBranch.outline
  | .function params body => .function params (Node.allOutlined body)
  | .parallel bindings => .parallel (Node.bindingsOutlined bindings)
  | .join ids => .join ids
  | .logStep id expr => .logStep id expr.outline
  | .task _ plan => .task .empty plan.outline
  | .logEntry details none => .logEntry details none
  | .logEntry details (some plan) => .logEntry details (some plan.outline)

/-- The outlines of some nodes. -/
def Node.allOutlined : List Node → List Node
  | [] => []
  | node :: nodes => node.outline :: Node.allOutlined nodes

/-- Some bindings, their nodes in outline. -/
def Node.bindingsOutlined : List (Symbol × Node) → List (Symbol × Node)
  | [] => []
  | (name, node) :: bindings => (name, node.outline) :: Node.bindingsOutlined bindings

end

/-- The frame without its data. -/
def Frame.outline : Frame → Frame
  | .literal _ => .literal .nil
  | .task _ => .task .empty
  | frame => frame

/-- Two errors with the same reason. -/
def ParseError.SameFault (e e' : ParseError) : Prop :=
  e.fault = e'.fault

/-- The arranged arguments, the expressions among them in outline. -/
def Arguments.outline : Arguments → Arguments
  | .expressions body => .expressions (body.map Value.outline)
  | .names ids => .names ids
  | .named name expr => .named name expr.outline
  | .flat group body => .flat (Value.flatOutlined group) (body.map Value.outline)
  | .paired group => .paired (Value.pairedOutlined group)
  | .params ids body => .params ids (body.map Value.outline)

/-- The arguments of a special form, with the expressions among them in outline. -/
def SpecialForm.outlined : SpecialForm → List Value → List Value
  | .sequence, body => Value.allOutlined body
  | .conditional, arms => Value.allOutlined arms
  | .definition, target :: exprs => target :: Value.allOutlined exprs
  | .function, params :: body => params :: Value.allOutlined body
  | .letBinding, .vector group :: body =>
      .vector (Value.flatOutlined group) :: Value.allOutlined body
  | .letBinding, group :: body => group :: Value.allOutlined body
  | .parallel, .vector group :: rest => .vector (Value.pairedOutlined group) :: rest
  | .logStep, marker :: id :: exprs => marker :: id :: Value.allOutlined exprs
  | _, args => args

end Outlines

section Filling

@[simp] theorem Value.allOutlined_eq_map
    (values : List Value) :
    allOutlined values = values.map outline := by
  induction values with
  | nil => rfl
  | cons value values ih => rw [allOutlined, ih, List.map_cons]

@[simp] theorem Node.allOutlined_eq_map
    (nodes : List Node) :
    allOutlined nodes = nodes.map outline := by
  induction nodes with
  | nil => rfl
  | cons node nodes ih => rw [allOutlined, ih, List.map_cons]

@[simp] theorem Node.bindingsOutlined_zip
    (names : List Symbol) (nodes : List Node) :
    bindingsOutlined (names.zip nodes) = names.zip (nodes.map outline) := by
  induction names generalizing nodes with
  | nil => rfl
  | cons name names ih =>
      cases nodes with
      | nil => rfl
      | cons node nodes => simp [bindingsOutlined, ih]

theorem SpecialForm.fill_outline
    (form : SpecialForm) (names : List Symbol) (nodes : List Node) :
    form.fill names (nodes.map Node.outline) = (form.fill names nodes).map Node.outline := by
  fun_cases SpecialForm.fill form names nodes with
  | case9 _ _ _ hsequence hjoin hlet hfunction hparallel hconditional hdefinition hlogStep =>
      -- the number of nodes is that of their outlines, so that they do not make the form either
      rw [SpecialForm.fill.eq_9 _ _ _ hsequence hjoin hlet hfunction hparallel ?_ ?_ ?_,
        Option.map_none]
      · rintro condition thenBranch elseBranch hform h
        obtain ⟨c, _, rfl, -, h⟩ := List.map_eq_cons_iff.1 h
        obtain ⟨t, _, rfl, -, h⟩ := List.map_eq_cons_iff.1 h
        obtain ⟨e, rfl, -⟩ := List.map_eq_singleton_iff.1 h
        exact hconditional c t e hform rfl
      · rintro target value hform hnames h
        obtain ⟨node, hnode, -⟩ := List.map_eq_singleton_iff.1 h
        exact hdefinition target node hform hnames hnode
      · rintro id expr hform hnames h
        obtain ⟨node, hnode, -⟩ := List.map_eq_singleton_iff.1 h
        exact hlogStep id node hform hnames hnode
  | _ => simp [SpecialForm.fill, Node.outline, List.map_drop]

/-- Filling the frame of an outline with outlines gives the outline. -/
theorem Frame.fill_outline
    (frame : Frame) (nodes : List Node) :
    frame.outline.fill (nodes.map Node.outline) = (frame.fill nodes).map Node.outline := by
  fun_cases Frame.fill frame nodes with
  | case4 form names nodes => exact form.fill_outline names nodes
  | case6 _ _ hnodes =>
      rw [Frame.outline, Frame.fill.eq_6, Option.map_none]
      rintro plan h
      obtain ⟨plan, hplan, -⟩ := List.map_eq_singleton_iff.1 h
      exact hnodes plan hplan
  | _ => simp [Frame.fill, Frame.outline, Node.outline]

end Filling

section Steps

/-- Both steps refuse for the same reason, or the second goes on with the outline. -/
abbrev StepOutlined : Step → Step → Prop :=
  Corresponds ParseError.SameFault fun expr outlined => outlined = expr.outline

theorem expressions_outlined
    (values : List Value) :
    List.Forall₂ StepOutlined (values.map .ok) ((values.map Value.outline).map .ok) := by
  induction values with
  | nil => exact .nil
  | cons value values ih => exact .cons (.ok rfl) ih

@[simp] theorem Value.length_flatOutlined
    (group : List Value) :
    (flatOutlined group).length = group.length := by
  fun_induction flatNames group with
  | case1 name expr rest ih => simp only [flatOutlined, List.length_cons, ih]
  | case2 group hgroup => rw [flatOutlined.eq_2 _ hgroup]

/-- What is no vector of two is none in outline. -/
theorem Value.pairedOutlined_cons_of_ne
    {item : Value}
    (hitem : ∀ name expr, item = .vector [name, expr] → False)
    (rest : List Value) :
    ∃ item', pairedOutlined (item :: rest) = item' :: pairedOutlined rest ∧
      ∀ name expr, item' = .vector [name, expr] → False := by
  cases item with
  | vector items =>
      rcases items with _ | ⟨name, _ | ⟨expr, _ | ⟨expr', exprs⟩⟩⟩
      · exact ⟨_, rfl, hitem⟩
      · exact ⟨_, rfl, hitem⟩
      · exact absurd rfl (hitem name expr)
      · exact ⟨_, rfl, nofun⟩
  | _ => exact ⟨_, rfl, hitem⟩

variable {refusal refusal' : ParseError} (hrefusal : refusal.SameFault refusal')
include hrefusal

theorem flatSteps_outlined
    (group : List Value) :
    List.Forall₂ StepOutlined (flatSteps refusal group)
        (flatSteps refusal' (Value.flatOutlined group)) ∧
      flatNames (Value.flatOutlined group) = flatNames group := by
  fun_induction flatNames group with
  | case1 name expr rest ih =>
      simp only [Value.flatOutlined, flatSteps, flatNames, ih.2, and_true]
      cases Symbol.ofValue? name with
      | some target => exact .cons (.ok rfl) ih.1
      | none => exact .cons (.error hrefusal) .nil
  | case2 group hgroup =>
      rw [Value.flatOutlined.eq_2 _ hgroup, flatSteps.eq_2 _ _ hgroup, flatSteps.eq_2 _ _ hgroup,
        flatNames.eq_2 _ hgroup]
      exact ⟨.nil, rfl⟩

theorem pairedSteps_outlined
    (group : List Value) :
    List.Forall₂ StepOutlined (pairedSteps refusal group)
        (pairedSteps refusal' (Value.pairedOutlined group)) ∧
      pairedNames (Value.pairedOutlined group) = pairedNames group := by
  fun_induction pairedNames group with
  | case1 name expr rest ih =>
      simp only [Value.pairedOutlined, Value.allOutlined, pairedSteps, pairedNames, ih.2, and_true]
      cases Symbol.ofValue? name with
      | some target => exact .cons (.ok rfl) ih.1
      | none => exact .cons (.error hrefusal) .nil
  | case2 group hgroup =>
      cases group with
      | nil => exact ⟨.nil, rfl⟩
      | cons item rest =>
          have hitem : ∀ name expr, item = .vector [name, expr] → False :=
            fun name expr h => hgroup name expr rest (h ▸ rfl)
          obtain ⟨item', hitem', hpair⟩ := Value.pairedOutlined_cons_of_ne hitem rest
          rw [hitem', pairedSteps.eq_3 _ _ _ hitem, pairedSteps.eq_3 _ _ _ hpair,
            pairedNames.eq_2 _ fun name expr rest h => hpair name expr (List.cons.inj h).1]
          exact ⟨.cons (.error hrefusal) .nil, rfl⟩

/-- Arranged arguments are taken apart into the outlines of their expressions. -/
theorem arguments_outlined
    (arguments : Arguments) :
    List.Forall₂ StepOutlined (arguments.steps refusal) (arguments.outline.steps refusal') ∧
      arguments.outline.given = arguments.given := by
  cases arguments with
  | expressions body => exact ⟨expressions_outlined body, rfl⟩
  | names ids =>
      refine ⟨?_, rfl⟩
      simp only [Arguments.outline, Arguments.steps]
      cases Symbol.ofValues? ids with
      | some names => exact .nil
      | none => exact .cons (.error hrefusal) .nil
  | named name expr =>
      refine ⟨?_, rfl⟩
      simp only [Arguments.outline, Arguments.steps]
      cases Symbol.ofValue? name with
      | some target => exact .cons (.ok rfl) .nil
      | none => exact .cons (.error hrefusal) .nil
  | flat group body =>
      obtain ⟨hsteps, hnames⟩ := flatSteps_outlined hrefusal group
      exact ⟨List.rel_append hsteps (expressions_outlined body), hnames⟩
  | paired group => exact pairedSteps_outlined hrefusal group
  | params ids body =>
      refine ⟨?_, rfl⟩
      simp only [Arguments.outline, Arguments.steps]
      cases Symbol.ofValues? ids with
      | some names => exact expressions_outlined body
      | none => exact .cons (.error hrefusal) .nil

end Steps

section TakenApart

namespace Value

/-- The outline of a special form is the form with its arguments in outline. -/
theorem outline_applied
    (form : SpecialForm) (args : List Value) :
    (form.applied args).outline = form.applied (form.outlined args) := by
  cases form with
  | letBinding =>
      rcases args with _ | ⟨group, body⟩
      · rfl
      · cases group <;> rfl
  | parallel =>
      rcases args with _ | ⟨group, rest⟩
      · rfl
      · cases group <;> rfl
  | logStep => rcases args with _ | ⟨marker, _ | ⟨id, exprs⟩⟩ <;> rfl
  | _ => cases args <;> rfl

/-- In outline the arguments are arranged in the same way: there are as many of them, and as many
vectors among those that are kept. -/
theorem arrange?_outlined
    (form : SpecialForm) (args : List Value) :
    form.arrange? (form.outlined args) = (form.arrange? args).map Arguments.outline := by
  cases form with
  | sequence => simp [SpecialForm.outlined, SpecialForm.arrange?, Arguments.outline]
  | join => rfl
  | definition =>
      rcases args with _ | ⟨target, _ | ⟨value, _ | ⟨value', rest⟩⟩⟩ <;> rfl
  | letBinding =>
      rcases args with _ | ⟨group, body⟩
      · rfl
      · cases group with
        | vector group =>
            rw [SpecialForm.outlined, SpecialForm.arrange?, SpecialForm.arrange?,
              length_flatOutlined, allOutlined_eq_map, apply_ite (Option.map Arguments.outline)]
            rfl
        | _ => rfl
  | conditional =>
      rcases args with _ | ⟨c, _ | ⟨t, _ | ⟨e, _ | ⟨e', rest⟩⟩⟩⟩ <;> rfl
  | function =>
      rcases args with _ | ⟨params, body⟩
      · rfl
      · cases params with
        | vector params =>
            simp [SpecialForm.outlined, SpecialForm.arrange?, Arguments.outline]
        | _ => rfl
  | parallel =>
      rcases args with _ | ⟨group, _ | ⟨arg, rest⟩⟩
      · rfl
      · cases group <;> rfl
      · cases group <;> rfl
  | logStep =>
      rcases args with _ | ⟨marker, _ | ⟨id, _ | ⟨expr, _ | ⟨expr', rest⟩⟩⟩⟩
      · rfl
      · rfl
      · rfl
      · have hargs : SpecialForm.logStep.outlined [marker, id, expr] = [marker, id, expr.outline] :=
          rfl
        rw [hargs, SpecialForm.arrange?, SpecialForm.arrange?,
          apply_ite (Option.map Arguments.outline)]
        rfl
      · rfl

theorem ofHead?_outline
    (value : Value) :
    SpecialForm.ofHead? value.outline = SpecialForm.ofHead? value := by
  have hname : value.outline.symbolName? = value.symbolName? := by
    cases value with
    | list items =>
        cases items with
        | nil => rfl
        | cons head args =>
            unfold outline
            split <;> rfl
    | map entries =>
        unfold outline
        split <;> rfl
    | _ => rfl
  rw [SpecialForm.ofHead?, SpecialForm.ofHead?, hname]

theorem outline_call
    {head : Value} {args : List Value}
    (hhead : SpecialForm.ofHead? head = none) :
    (list (head :: args)).outline = .list (head.outline :: args.map outline) := by
  rw [outline.eq_3 _ _ hhead, allOutlined_eq_map]

theorem planOutlined_eq
    {entries : Entries} {plan : Value}
    (h : entries.keyword? "plan" = some plan) :
    planOutlined entries = plan.outline := by
  induction entries with
  | nil => cases h
  | cons entry entries ih =>
      rcases entry with ⟨key, value⟩
      rw [Entries.keyword?] at h
      rw [planOutlined]
      split at h
      · next hkey =>
        cases h
        rw [if_pos hkey]
      · next hkey => rw [if_neg hkey, ih h]

/-- The outline of a value is taken apart into the outlines of its expressions and its frame
without data. -/
theorem outline_steps_and_frame
    (value : Value) :
    List.Forall₂ StepOutlined value.steps value.outline.steps ∧
      value.outline.frame.outline = value.frame.outline := by
  fun_cases Value.steps value with
  | case1 name hempty =>
      rw [outline, steps, if_pos hempty]
      exact ⟨.cons (.error rfl) .nil, rfl⟩
  | case2 name hname =>
      rw [outline, steps, if_neg hname]
      exact ⟨.nil, rfl⟩
  | case3 => exact ⟨.cons (.error rfl) .nil, rfl⟩
  | case4 head args hhead =>
      have hhead' : SpecialForm.ofHead? head.outline = none := by rw [ofHead?_outline, hhead]
      rw [outline_call hhead, steps, frame, frame, hhead, hhead']
      exact ⟨expressions_outlined (head :: args), rfl⟩
  | case5 head args form hform =>
      obtain rfl := SpecialForm.ofHead?_eq_some_iff.1 hform
      have hargs := outline_applied form args
      simp only [SpecialForm.applied] at hargs
      rw [hargs]
      simp only [steps, frame, hform, Frame.outline, SpecialForm.steps, SpecialForm.names,
        arrange?_outlined]
      have hrefusal : (ParseError.ofForm form (.symbol form.name) args).SameFault
          (.ofForm form (.symbol form.name) (form.outlined args)) := rfl
      cases form.arrange? args with
      | none => exact ⟨.cons (.error hrefusal) .nil, rfl⟩
      | some arguments =>
          obtain ⟨hsteps, hnames⟩ := arguments_outlined hrefusal arguments
          exact ⟨hsteps, congrArg (Frame.form form) hnames⟩
  | case6 entries htask plan hplan =>
      simp only [outline, if_pos htask, planOutlined_eq hplan, frame]
      exact ⟨.cons (.ok rfl) .nil, rfl⟩
  | case7 entries htask hplan =>
      rw [Entries.isTask, Entries.hasKeyword.eq_def entries "plan", hplan] at htask
      simp at htask
  | case8 entries htask =>
      simp only [outline, if_neg htask, frame]
      exact ⟨.nil, rfl⟩
  | case9 value hsymbol hnil hlist hmap =>
      cases value with
      | symbol name => exact absurd rfl (hsymbol name)
      | list items =>
          cases items with
          | nil => exact absurd rfl hnil
          | cons head args => exact absurd rfl (hlist head args)
      | map entries => exact absurd rfl (hmap entries)
      | _ => exact ⟨.nil, rfl⟩

end Value

end TakenApart

section Understood

namespace Node

/-- A value and its outline are understood as nodes with one outline, or refused for the same
reason. -/
theorem ofValue_outline
    (value : Value) :
    Corresponds ParseError.SameFault (fun m n => m.outline = n.outline) (ofValue value)
      (ofValue value.outline) := by
  induction hsize : sizeOf value using Nat.strong_induction_on generalizing value with
  | _ size ih =>
    subst hsize
    obtain ⟨hsteps, hframe⟩ := value.outline_steps_and_frame
    have hrun : Corresponds ParseError.SameFault (List.Forall₂ fun m n => m.outline = n.outline)
        (value.steps.mapM Step.run) (value.outline.steps.mapM Step.run) := by
      refine Corresponds.mapM (((List.forall₂_and_left _ _).2 ⟨fun _ => id, hsteps⟩).imp ?_)
      rintro step step' ⟨hmem, hstep⟩
      cases hstep with
      | error related => exact .error related
      | ok related =>
          obtain rfl := related
          exact ih _ (Value.sizeOf_lt_of_inside (Value.inside_of_mem_steps hmem)) _ rfl
    refine hrun.square (corresponds_ofValue _) (corresponds_ofValue _) ?_
    intro nodes nodes' hnodes m n hm hn
    have hmap : nodes.map outline = nodes'.map outline := by
      rw [← List.forall₂_eq_eq_eq, List.forall₂_map_left_iff, List.forall₂_map_right_iff]
      exact hnodes
    have hfill := value.frame.fill_outline nodes
    rw [← hframe, hmap, Frame.fill_outline, hm, hn] at hfill
    exact (Option.some.inj hfill).symm

/-- Values with one outline are understood as nodes with one outline, or refused for the same
reason. -/
theorem ofValue_of_outline_eq
    {v w : Value}
    (h : v.outline = w.outline) :
    Corresponds ParseError.SameFault (fun m n => m.outline = n.outline) (ofValue v) (ofValue w) :=
  (ofValue_outline v).trans (h ▸ (ofValue_outline w).symm) (fun h h' => h.trans h'.symm)
    fun h h' => h.trans h'.symm

end Node

end Understood

section Replacing

/-- How many arguments of a form stand before its expressions, where these are arguments. -/
def SpecialForm.leading? : SpecialForm → Option Nat
  | .sequence | .conditional => some 0
  | .definition | .letBinding | .function => some 1
  | .logStep => some 2
  | .parallel | .join => none

namespace Value

/-- The data at one place of an expression is replaced by other data, or what a task says there
besides its plan by anything else. -/
inductive Replaced : Value → Value → Prop
  | data
      {v w : Value}
      (hv : v.SelfEvaluating)
      (hw : w.SelfEvaluating) :
      Replaced v w
  | details
      {a b : Entries}
      (ha : a.isTask = true)
      (hb : b.isTask = true)
      (hplan : a.keyword? "plan" = b.keyword? "plan") :
      Replaced (.map a) (.map b)
  | plan
      {before after : Entries} {v w : Value}
      (hid : Entries.Mentions (before ++ (.keyword "plan", v) :: after) "id")
      (hfirst : ¬ before.Mentions "plan")
      (h : Replaced v w) :
      Replaced (.map (before ++ (.keyword "plan", v) :: after))
        (.map (before ++ (.keyword "plan", w) :: after))
  | item
      {before after : List Value} {v w : Value}
      (hcall : ∀ head ∈ before.head?, head.Unreserved)
      (h : Replaced v w) :
      Replaced (.list (before ++ v :: after)) (.list (before ++ w :: after))
  | argument
      {form : SpecialForm} {leading : Nat} {before after : List Value} {v w : Value}
      (hform : form.leading? = some leading)
      (hplace : leading ≤ before.length)
      (h : Replaced v w) :
      Replaced (form.applied (before ++ v :: after)) (form.applied (before ++ w :: after))
  | binding
      {name : Value} {before after body : List Value} {v w : Value}
      (heven : before.length % 2 = 0)
      (h : Replaced v w) :
      Replaced
        (SpecialForm.letBinding.applied (.vector (before ++ name :: v :: after) :: body))
        (SpecialForm.letBinding.applied (.vector (before ++ name :: w :: after) :: body))
  | parallel
      {name : Value} {before after exprs exprs' rest : List Value} {v w : Value}
      (h : Replaced v w) :
      Replaced
        (SpecialForm.parallel.applied
          (.vector (before ++ .vector (name :: (exprs ++ v :: exprs')) :: after) :: rest))
        (SpecialForm.parallel.applied
          (.vector (before ++ .vector (name :: (exprs ++ w :: exprs')) :: after) :: rest))

theorem SelfEvaluating.outline_eq
    {v : Value}
    (h : v.SelfEvaluating) :
    v.outline = .nil := by
  cases h with
  | map htask => simp [outline, htask]
  | _ => rfl

/-- What is replaced is no symbol, and neither is what it is replaced by. -/
theorem Replaced.ofHead?_eq_none
    {v w : Value}
    (h : Replaced v w) :
    SpecialForm.ofHead? v = none ∧ SpecialForm.ofHead? w = none := by
  cases h with
  | data hv hw => exact ⟨by cases hv <;> rfl, by cases hw <;> rfl⟩
  | _ => exact ⟨rfl, rfl⟩

theorem flatOutlined_append
    {before : List Value}
    (heven : before.length % 2 = 0)
    (after : List Value) :
    flatOutlined (before ++ after) = flatOutlined before ++ flatOutlined after := by
  fun_induction flatNames before with
  | case1 name expr rest ih =>
      have hrest : rest.length % 2 = 0 := by
        simp only [List.length_cons] at heven
        omega
      simp only [List.cons_append, flatOutlined, ih hrest]
  | case2 before hbefore =>
      rcases before with _ | ⟨name, _ | ⟨expr, rest⟩⟩
      · rfl
      · cases heven
      · exact (hbefore _ _ _ rfl).elim

theorem pairedOutlined_append
    (before after : List Value) :
    pairedOutlined (before ++ after) = pairedOutlined before ++ pairedOutlined after := by
  induction before with
  | nil => rfl
  | cons item before ih =>
      cases item with
      | vector items =>
          cases items with
          | nil => simp only [List.cons_append, pairedOutlined, ih]
          | cons name exprs => simp only [List.cons_append, pairedOutlined, ih]
      | _ => simp only [List.cons_append, pairedOutlined, ih]

/-- Replaced data does not show in the outline. -/
theorem Replaced.outline_eq
    {v w : Value}
    (h : Replaced v w) :
    v.outline = w.outline := by
  induction h with
  | data hv hw => rw [hv.outline_eq, hw.outline_eq]
  | @details a b ha hb hplan =>
      obtain ⟨-, hfound⟩ := Bool.and_eq_true_iff.1 ha
      obtain ⟨plan, ha'⟩ := Option.isSome_iff_exists.1 hfound
      simp only [outline, if_pos ha, if_pos hb, planOutlined_eq ha', planOutlined_eq (hplan ▸ ha')]
  | @plan before after v w _ hfirst _ ih =>
      have htask : Entries.isTask (before ++ (.keyword "plan", v) :: after) =
          Entries.isTask (before ++ (.keyword "plan", w) :: after) := by
        simp [Entries.isTask, Entries.hasKeyword]
      have hfound : ∀ plan, planOutlined (before ++ (.keyword "plan", plan) :: after) =
          plan.outline := fun plan =>
        planOutlined_eq (Entries.keyword?_eq_some_iff.2 ⟨before, after, rfl, hfirst⟩)
      simp only [outline, htask, hfound, ih]
  | @item before after v w hcall h ih =>
      cases before with
      | nil =>
          obtain ⟨hv, hw⟩ := h.ofHead?_eq_none
          rw [List.nil_append, List.nil_append, outline_call hv, outline_call hw, ih]
      | cons head before =>
          have hhead := SpecialForm.ofHead?_eq_none_iff.2 (hcall head rfl)
          rw [List.cons_append, List.cons_append, outline_call hhead, outline_call hhead]
          simp only [List.map_append, List.map_cons, ih]
  | @argument form leading before after v w hform hplace _ ih =>
      have hsame : ∀ before,
          allOutlined (before ++ v :: after) = allOutlined (before ++ w :: after) := by
        intro before
        simp only [allOutlined_eq_map, List.map_append, List.map_cons, ih]
      rw [outline_applied, outline_applied]
      refine congrArg form.applied ?_
      -- the arguments that stand before the expressions are set aside
      cases form with
      | sequence => exact hsame before
      | conditional => exact hsame before
      | parallel => cases hform
      | join => cases hform
      | letBinding =>
          cases hform
          obtain _ | ⟨group, before⟩ := before
          · cases hplace
          · cases group <;> simp only [List.cons_append, SpecialForm.outlined, hsame]
      | logStep =>
          cases hform
          obtain _ | ⟨marker, _ | ⟨id, before⟩⟩ := before
          · exact absurd hplace (by decide)
          · exact absurd hplace (by simp)
          · simp only [List.cons_append, SpecialForm.outlined, hsame]
      | _ =>
          cases hform
          obtain _ | ⟨first, before⟩ := before
          · cases hplace
          · simp only [List.cons_append, SpecialForm.outlined, hsame]
  | @binding name before after body v w heven _ ih =>
      simp only [outline_applied, SpecialForm.outlined, flatOutlined_append heven, flatOutlined, ih]
  | @parallel name before after exprs exprs' rest v w _ ih =>
      simp only [outline_applied, SpecialForm.outlined, pairedOutlined_append, pairedOutlined,
        allOutlined_eq_map, List.map_append, List.map_cons, ih]

end Value

/-- Replacing data at the places of expressions, any number of times, changes neither whether a
value is understood nor the reason of a refusal, and of the node nothing but its data. -/
theorem Node.ofValue_replaced
    {v w : Value}
    (h : Relation.ReflTransGen Value.Replaced v w) :
    Corresponds ParseError.SameFault (fun m n => m.outline = n.outline) (ofValue v)
      (ofValue w) := by
  refine ofValue_of_outline_eq ?_
  induction h with
  | refl => rfl
  | tail _ hreplaced ih => exact ih.trans hreplaced.outline_eq

/-- What is no program is no fault in the data of a call or of a task. -/
theorem Node.ofValue_replaced_hidden :
    Corresponds ParseError.SameFault (fun m n => m.outline = n.outline)
      (ofValue
        (.list
          [.symbol "f",
            .map
              [(.keyword "id", .nil), (.keyword "plan", .vector [.list []]),
                (.keyword "intent", .list [])]]))
      (ofValue
        (.list [.symbol "f", .map [(.keyword "plan", .nil), (.keyword "id", .symbol "")]])) := by
  have hcall : ∀ head ∈ [Value.symbol "f"].head?, head.Unreserved := by
    rintro head ⟨⟩ form
    cases form <;> simp [SpecialForm.name]
  have hdetails : Value.Replaced
      (.map
        [(.keyword "id", .nil), (.keyword "plan", .vector [.list []]),
          (.keyword "intent", .list [])])
      (.map [(.keyword "plan", .vector [.list []]), (.keyword "id", .symbol "")]) :=
    .details rfl rfl rfl
  have hplan : Value.Replaced
      (.map [(.keyword "plan", .vector [.list []]), (.keyword "id", .symbol "")])
      (.map [(.keyword "plan", .nil), (.keyword "id", .symbol "")]) :=
    @Value.Replaced.plan [] [(.keyword "id", .symbol "")] _ _ ⟨.symbol "", by simp⟩
      (by simp [Entries.Mentions]) (.data (.vector _) .nil)
  exact ofValue_replaced
    (.tail (.single (@Value.Replaced.item [.symbol "f"] [] _ _ hcall hdetails))
      (@Value.Replaced.item [.symbol "f"] [] _ _ hcall hplan))

end Replacing
end TaskTree
