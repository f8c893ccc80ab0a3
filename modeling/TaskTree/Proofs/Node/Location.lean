import TaskTree.Proofs.Node.Expressions
import TaskTree.Proofs.Node.Failure

/-!
# Where a value is refused

The steps of a value are its expressions from left to right, up to the place where the
value itself is refused.  So an error that is not about the value as a whole is the
error of the first of its expressions that is not understood, and the fragment that it
names is refused on its own in the same way.

**Results.**
* `Value.follows_steps`: steps follow the expressions of the value.
* `Follows.split`: what is before a step is before its expression.
* `Node.ofValue_error_located`: every error is that of its fragment, found from the left.
-/

namespace TaskTree

section Order

/-- The steps are the expressions, in order, up to a refusal. -/
inductive Follows : List Step → List Value → Prop
  | done : Follows [] []
  | expr
      {steps : List Step} {exprs : List Value}
      (value : Value)
      (h : Follows steps exprs) :
      Follows (.ok value :: steps) (value :: exprs)
  | refused
      (refusal : ParseError) (steps : List Step) (exprs : List Value) :
      Follows (.error refusal :: steps) exprs

namespace Follows

variable {steps steps' before after : List Step} {exprs exprs' : List Value} {expr : Value}

theorem append
    (h : Follows steps exprs)
    (h' : Follows steps' exprs') :
    Follows (steps ++ steps') (exprs ++ exprs') := by
  induction h with
  | done => exact h'
  | expr value _ ih => exact .expr value ih
  | refused refusal steps exprs => exact .refused refusal _ _

theorem all
    (exprs : List Value) :
    Follows (exprs.map Except.ok) exprs := by
  induction exprs with
  | nil => exact .done
  | cons value exprs ih => exact .expr value ih

/-- If everything before a step is understood, so is everything before its expression. -/
theorem split
    (h : Follows steps exprs)
    (hsplit : steps = before ++ .ok expr :: after)
    (hbefore : ∀ step ∈ before, ∃ node, Step.run step = .ok node) :
    ∃ earlier later, exprs = earlier ++ expr :: later ∧
      ∀ v ∈ earlier, ∃ node, Node.ofValue v = .ok node := by
  induction h generalizing before with
  | done => simp at hsplit
  | @expr steps exprs value _ ih =>
      cases before with
      | nil =>
          obtain ⟨hvalue, -⟩ := List.cons.inj hsplit
          cases hvalue
          exact ⟨[], exprs, rfl, List.forall_mem_nil _⟩
      | cons step before =>
          obtain ⟨rfl, hrest⟩ := List.cons.inj hsplit
          obtain ⟨hvalue, hbefore⟩ := List.forall_mem_cons.1 hbefore
          obtain ⟨earlier, later, rfl, hearlier⟩ := ih hrest hbefore
          exact ⟨value :: earlier, later, rfl, List.forall_mem_cons.2 ⟨hvalue, hearlier⟩⟩
  | refused refusal steps exprs =>
      cases before with
      | nil => cases (List.cons.inj hsplit).1
      | cons step before =>
          obtain ⟨rfl, -⟩ := List.cons.inj hsplit
          obtain ⟨node, hnode⟩ := hbefore _ List.mem_cons_self
          cases hnode

end Follows

theorem follows_flatSteps
    (unnamed : ParseError) (items : List Value) :
    Follows (flatSteps unnamed items) (Value.flatExpressions items) := by
  fun_induction flatSteps unnamed items with
  | case1 name expr rest target htarget ih => exact .expr expr ih
  | case2 name expr rest htarget => exact .refused unnamed _ _
  | case3 items hitems =>
      unfold Value.flatExpressions
      split
      · exact absurd rfl (hitems _ _ _)
      · exact .done

theorem follows_pairedSteps
    (unnamed : ParseError) (items : List Value) :
    Follows (pairedSteps unnamed items) (Value.pairedExpressions items) := by
  fun_induction pairedSteps unnamed items with
  | case1 => exact .done
  | case2 name expr rest target htarget ih => exact .expr expr ih
  | case3 name expr rest htarget => exact .refused unnamed _ _
  | case4 item rest hitem => exact .refused unnamed _ _

/-- The expressions among arranged arguments, in order. -/
def Arguments.listed : Arguments → List Value
  | .expressions body => body
  | .names _ => []
  | .named _ expr => [expr]
  | .flat group body => Value.flatExpressions group ++ body
  | .paired group => Value.pairedExpressions group
  | .params _ body => body

theorem Arguments.follows_steps
    (refusal : ParseError) (arguments : Arguments) :
    Follows (arguments.steps refusal) arguments.listed := by
  cases arguments with
  | expressions body => exact .all body
  | names ids =>
      simp only [steps]
      split
      · exact .done
      · exact .refused refusal _ _
  | named name expr =>
      simp only [steps]
      split
      · exact .all [expr]
      · exact .refused refusal _ _
  | flat group body => exact (follows_flatSteps refusal group).append (.all body)
  | paired group => exact follows_pairedSteps refusal group
  | params ids body =>
      simp only [steps]
      split
      · exact .all body
      · exact .refused refusal _ _

/-- The expressions of a special form are those among its arguments. -/
theorem SpecialForm.expressions_of_arrange?
    {form : SpecialForm} {head : Value} {args : List Value} {arguments : Arguments}
    (hform : SpecialForm.ofHead? head = some form)
    (h : form.arrange? args = some arguments) :
    Value.expressions (.list (head :: args)) = arguments.listed := by
  revert h
  fun_cases SpecialForm.arrange? form args with
  | case5 | case10 | case11 => rintro ⟨⟩
  | _ =>
      rintro ⟨⟩
      simp [Value.expressions, hform, Arguments.listed]

/-- The steps of a value are its expressions, up to a refusal. -/
theorem Value.follows_steps
    (value : Value) :
    Follows value.steps value.expressions := by
  fun_cases Value.steps value with
  | case1 name hempty => exact .refused _ _ _
  | case2 name hempty => exact .done
  | case3 => exact .refused _ _ _
  | case4 head args hhead =>
      simp only [expressions, hhead]
      exact .all (head :: args)
  | case5 head args form hform =>
      rw [SpecialForm.steps]
      split
      · next arguments harranged =>
        rw [SpecialForm.expressions_of_arrange? hform harranged]
        exact arguments.follows_steps _
      · exact .refused _ _ _
  | case6 entries htask plan hplan =>
      simp only [expressions, htask, if_true, hplan]
      exact .all [plan]
  | case7 entries htask hplan => exact .refused _ _ _
  | case8 entries htask =>
      simp only [expressions, if_neg htask]
      exact .done
  | case9 _ hsymbol hnil hlist hmap =>
      rw [expressions.eq_11 _ hlist hmap]
      exact .done

end Order

section Located

namespace Node

/-- An error is that of the first of the expressions that is not understood, or names the value
itself. -/
theorem first_of_ofValue
    {value : Value} {e : ParseError}
    (h : ofValue value = .error e) :
    (e.fragment = value ∧ value.Refuses e.fault) ∨
      ∃ earlier child later, value.expressions = earlier ++ child :: later ∧
        (∀ v ∈ earlier, ∃ node, ofValue v = .ok node) ∧ ofValue child = .error e := by
  refine (ofValue_error_cases h).imp_right ?_
  rintro ⟨before, child, after, hsplit, hbefore, hchild⟩
  obtain ⟨earlier, later, hexprs, hearlier⟩ := value.follows_steps.split hsplit hbefore
  exact ⟨earlier, child, later, hexprs, hearlier, hchild⟩

/-- The fragment that an error names is refused on its own with the same error. -/
theorem ofValue_fragment
    {value : Value} {e : ParseError}
    (h : ofValue value = .error e) :
    ofValue e.fragment = .error e := by
  rcases ofValue_error_cases h with ⟨hfragment, -⟩ | ⟨before, child, after, hsplit, -, hchild⟩
  · rw [hfragment, h]
  · have hmem : Except.ok child ∈ value.steps := by simp [hsplit]
    have hinside := Value.inside_of_mem_steps hmem
    exact ofValue_fragment hchild
termination_by sizeOf value
decreasing_by exact Value.sizeOf_lt_of_inside hinside

/-- An error of a value is the error of the fragment that it names.  The fragment is the value
itself, or the error is that of the first expression that is not understood.  Each fault is that
of one kind of fragment. -/
theorem ofValue_error_located
    {value : Value} {e : ParseError}
    (h : ofValue value = .error e) :
    ofValue e.fragment = .error e ∧
      (e.fragment = value ∨
        ∃ earlier child later, value.expressions = earlier ++ child :: later ∧
          (∀ v ∈ earlier, ∃ node, ofValue v = .ok node) ∧ ofValue child = .error e) ∧
      (e.fault = .emptyList → e.fragment = .list []) ∧
      (e.fault = .unparseable → e.fragment = .symbol "") ∧
      ∀ form, e.fault = .invalidForm form →
        ∃ args, e.fragment = .list (.symbol form.name :: args) := by
  refine ⟨ofValue_fragment h, (first_of_ofValue h).imp_left And.left, ?_⟩
  obtain ⟨-, hrefuses⟩ := refuses_of_ofValue h
  rcases e with ⟨fault, fragment⟩
  cases hrefuses with
  | emptyList => exact ⟨fun _ => rfl, nofun, nofun⟩
  | unnamed => exact ⟨nofun, fun _ => rfl, nofun⟩
  | form form args =>
      refine ⟨nofun, nofun, ?_⟩
      rintro _ ⟨⟩
      exact ⟨args, rfl⟩

/-- A `let` whose second expression calls a function with the empty list, and in which a name is
missing and two special forms lack their arguments after that. -/
def faultyBinding : Value :=
  .list
    [.symbol "let",
      .vector
        [.symbol "a", .nil, .symbol "b", .list [.symbol "f", .list []], .nil,
          .list [.symbol "def"]],
      .list [.symbol "if"]]

/-- The fault that is met first is reported, with the smallest value that has it. -/
theorem ofValue_error_located_of_binding :
    ofValue faultyBinding = .error ⟨.emptyList, .list []⟩ ∧
      ofValue (.list []) = .error ⟨.emptyList, .list []⟩ ∧
        ∃ earlier child later, faultyBinding.expressions = earlier ++ child :: later ∧
          (∀ v ∈ earlier, ∃ node, ofValue v = .ok node) ∧
            ofValue child = .error ⟨.emptyList, .list []⟩ := by
  have hfirst : ofValue faultyBinding = .error ⟨.emptyList, .list []⟩ := rfl
  obtain ⟨hfragment, hplace, -⟩ := ofValue_error_located hfirst
  exact ⟨hfirst, hfragment, hplace.resolve_left nofun⟩

end Node

end Located

end TaskTree
