import Mathlib.Logic.Relation
import TaskTree.Proofs.Node.Frame
import TaskTree.Proofs.Program
import TaskTree.Proofs.Source.Invariant
import TaskTree.Proofs.Value.Equality

/-!
# What is refused, and why

An error names a value that stands in the one that was to be understood, and that
value really gives the reason: it is the empty list, the symbol without a name, or a
special form.  What the reader produces has a name for every symbol, so of a text
only empty lists and special forms are refused.

**Results.**
* `Node.ofValue_error_cases`: a value is refused itself, or as the first of its expressions that is.
* `Node.refuses_of_ofValue`: every error names a value that gives the reason.
* `Value.produced_of_source`: what the reader produces, and what is refused of it.
-/

namespace TaskTree

namespace Value

/-- A value stands in another, as a part of it or of one that does. -/
def Inside : Value → Value → Prop :=
  Relation.TransGen fun part whole => part ∈ whole.parts

section Inside

variable {inner value : Value}

theorem sizeOf_lt_of_inside
    (h : Inside inner value) :
    sizeOf inner < sizeOf value := by
  induction h with
  | single hpart => exact sizeOf_lt_of_mem_parts hpart
  | tail _ hpart ih => exact ih.trans (sizeOf_lt_of_mem_parts hpart)

theorem Everywhere.of_inside
    {p : Value → Prop}
    (hvalue : value.Everywhere p)
    (h : Inside inner value) :
    inner.Everywhere p := by
  induction h with
  | single hpart => exact (everywhere_iff.1 hvalue).2 _ hpart
  | tail _ hpart ih => exact ih ((everywhere_iff.1 hvalue).2 _ hpart)

end Inside

/-- A value that is refused, and why. -/
inductive Refuses : Value → ParseFault → Prop
  | emptyList : Refuses (.list []) .emptyList
  | unnamed : Refuses (.symbol "") .unparseable
  | form (form : SpecialForm) (args : List Value) : Refuses (form.applied args) (.invalidForm form)

end Value

section Steps

variable {refusal e : ParseError} {expr : Value} {items : List Value}

theorem mem_flatSteps
    {step : Step}
    (h : step ∈ flatSteps refusal items) :
    step = .error refusal ∨ ∃ expr ∈ items, step = .ok expr := by
  fun_induction flatSteps refusal items with
  | case1 name expr rest target htarget ih =>
      rcases List.mem_cons.1 h with rfl | h
      · exact .inr ⟨expr, by simp, rfl⟩
      · refine (ih h).imp_right ?_
        rintro ⟨expr', hmem, rfl⟩
        exact ⟨expr', by simp [hmem], rfl⟩
  | case2 name expr rest htarget => exact .inl (List.mem_singleton.1 h)
  | case3 items hitems => cases h

theorem mem_pairedSteps
    {step : Step}
    (h : step ∈ pairedSteps refusal items) :
    step = .error refusal ∨ ∃ name expr, .vector [name, expr] ∈ items ∧ step = .ok expr := by
  fun_induction pairedSteps refusal items with
  | case1 => cases h
  | case2 name expr rest target htarget ih =>
      rcases List.mem_cons.1 h with rfl | h
      · exact .inr ⟨name, expr, by simp, rfl⟩
      · refine (ih h).imp_right ?_
        rintro ⟨name', expr', hmem, rfl⟩
        exact ⟨name', expr', List.mem_cons_of_mem _ hmem, rfl⟩
  | case3 name expr rest htarget => exact .inl (List.mem_singleton.1 h)
  | case4 item rest hitem => exact .inl (List.mem_singleton.1 h)

/-- An expression stands at one of the places for expressions. -/
def Arguments.Holds (expr : Value) : Arguments → Prop
  | .expressions body => expr ∈ body
  | .names _ => False
  | .named _ value => expr = value
  | .flat group body => expr ∈ group ∨ expr ∈ body
  | .paired group => ∃ name, .vector [name, expr] ∈ group
  | .params _ body => expr ∈ body

theorem Arguments.mem_steps
    {arguments : Arguments} {step : Step}
    (h : step ∈ arguments.steps refusal) :
    step = .error refusal ∨ ∃ expr, arguments.Holds expr ∧ step = .ok expr := by
  have hbody : ∀ {body : List Value}, step ∈ body.map Except.ok →
      ∃ expr ∈ body, step = .ok expr := by
    intro body hmem
    obtain ⟨expr, hexpr, rfl⟩ := List.mem_map.1 hmem
    exact ⟨expr, hexpr, rfl⟩
  cases arguments with
  | expressions body => exact .inr (hbody h)
  | names ids =>
      simp only [steps] at h
      split at h
      · cases h
      · exact .inl (List.mem_singleton.1 h)
  | named name value =>
      simp only [steps] at h
      split at h
      · exact .inr ⟨value, rfl, List.mem_singleton.1 h⟩
      · exact .inl (List.mem_singleton.1 h)
  | flat group body =>
      rcases List.mem_append.1 h with h | h
      · refine (mem_flatSteps h).imp_right ?_
        rintro ⟨expr, hexpr, rfl⟩
        exact ⟨expr, .inl hexpr, rfl⟩
      · obtain ⟨expr, hexpr, rfl⟩ := hbody h
        exact .inr ⟨expr, .inr hexpr, rfl⟩
  | paired group =>
      refine (mem_pairedSteps h).imp_right ?_
      rintro ⟨name, expr, hitem, rfl⟩
      exact ⟨expr, ⟨name, hitem⟩, rfl⟩
  | params ids body =>
      simp only [steps] at h
      split at h
      · exact .inr (hbody h)
      · exact .inl (List.mem_singleton.1 h)

/-- The expressions of a special form stand in it. -/
theorem SpecialForm.inside_of_arrange?
    {form : SpecialForm} {args : List Value} {arguments : Arguments}
    (h : form.arrange? args = some arguments)
    (hexpr : arguments.Holds expr)
    (head : Value) :
    Value.Inside expr (.list (head :: args)) := by
  have hitem : ∀ {item : Value}, item ∈ args → Value.Inside item (.list (head :: args)) :=
    fun hmem => .single (List.mem_cons_of_mem _ hmem)
  have hgroup : ∀ {group : List Value} {item : Value}, .vector group ∈ args → item ∈ group →
      Value.Inside item (.list (head :: args)) := by
    intro group item hvector hmem
    have hpart : item ∈ Value.parts (.vector group) := hmem
    exact .head hpart (hitem hvector)
  revert h
  fun_cases SpecialForm.arrange? form args with
  | case1 =>
      rintro ⟨⟩
      exact hitem hexpr
  | case2 =>
      rintro ⟨⟩
      cases hexpr
  | case3 target value =>
      rintro ⟨⟩
      obtain rfl := hexpr
      exact hitem (by simp)
  | case4 group body _ =>
      rintro ⟨⟩
      rcases hexpr with hexpr | hexpr
      · exact hgroup List.mem_cons_self hexpr
      · exact hitem (List.mem_cons_of_mem _ hexpr)
  | case6 condition thenBranch elseBranch =>
      rintro ⟨⟩
      exact hitem hexpr
  | case7 params body =>
      rintro ⟨⟩
      exact hitem (List.mem_cons_of_mem _ hexpr)
  | case8 group =>
      rintro ⟨⟩
      obtain ⟨name, hpair⟩ := hexpr
      have hpart : expr ∈ Value.parts (.vector [name, expr]) := by simp [Value.parts]
      exact .head hpart (hgroup List.mem_cons_self hpair)
  | case9 marker id value _ =>
      rintro ⟨⟩
      obtain rfl := hexpr
      exact hitem (by simp)
  | _ => rintro ⟨⟩

/-- A step of a value refuses the value itself, or goes on inside it. -/
theorem Value.mem_steps
    {value : Value} {step : Step}
    (h : step ∈ value.steps) :
    (∃ e, step = .error e ∧ e.fragment = value ∧ value.Refuses e.fault) ∨
      ∃ expr, step = .ok expr ∧ expr.Inside value := by
  revert h
  fun_cases Value.steps value with
  | case1 name hempty =>
      intro h
      obtain rfl := List.mem_singleton.1 h
      obtain rfl := String.isEmpty_iff.1 hempty
      exact .inl ⟨_, rfl, rfl, .unnamed⟩
  | case3 =>
      intro h
      obtain rfl := List.mem_singleton.1 h
      exact .inl ⟨_, rfl, rfl, .emptyList⟩
  | case4 head args hhead =>
      intro h
      obtain ⟨expr, hexpr, rfl⟩ := List.mem_map.1 h
      exact .inr ⟨expr, rfl, .single hexpr⟩
  | case5 head args form hform =>
      intro h
      obtain rfl := SpecialForm.ofHead?_eq_some_iff.1 hform
      rw [SpecialForm.steps] at h
      split at h
      · next arguments harranged =>
        rcases Arguments.mem_steps h with rfl | ⟨expr, hexpr, rfl⟩
        · exact .inl ⟨_, rfl, rfl, .form form args⟩
        · exact .inr ⟨expr, rfl, SpecialForm.inside_of_arrange? harranged hexpr _⟩
      · obtain rfl := List.mem_singleton.1 h
        exact .inl ⟨_, rfl, rfl, .form form args⟩
  | case6 entries htask plan hplan =>
      intro h
      obtain rfl := List.mem_singleton.1 h
      obtain ⟨before, after, rfl, -⟩ := Entries.keyword?_eq_some_iff.1 hplan
      exact .inr ⟨plan, rfl, .single (by simp [parts])⟩
  | case7 entries htask hplan =>
      rw [Entries.isTask, Entries.hasKeyword.eq_def entries "plan", hplan] at htask
      simp at htask
  | _ =>
      intro h
      cases h

/-- An expression that is understood on the way stands in the value. -/
theorem Value.inside_of_mem_steps
    {value expr : Value}
    (h : .ok expr ∈ value.steps) :
    expr.Inside value := by
  rcases mem_steps h with ⟨_, ⟨⟩, _⟩ | ⟨_, ⟨⟩, hinside⟩
  exact hinside

end Steps

section Errors

namespace Node

/-- A value is refused itself, or as the first of its expressions that is refused. -/
theorem ofValue_error_cases
    {value : Value} {e : ParseError}
    (h : ofValue value = .error e) :
    (e.fragment = value ∧ value.Refuses e.fault) ∨
      ∃ before expr after, value.steps = before ++ .ok expr :: after ∧
        (∀ step ∈ before, ∃ node, step.run = .ok node) ∧ ofValue expr = .error e := by
  have hrun : value.steps.mapM Step.run = .error e := by
    have hsame := corresponds_ofValue value
    rw [h] at hsame
    exact hsame.eq_error
  obtain ⟨before, step, after, hsplit, hbefore, hstep⟩ := mapM_eq_error_iff.1 hrun
  have hmem : step ∈ value.steps := by simp [hsplit]
  rcases Value.mem_steps hmem with ⟨e', rfl, hfragment, hrefuses⟩ | ⟨expr, rfl, -⟩
  · cases hstep
    exact .inl ⟨hfragment, hrefuses⟩
  · exact .inr ⟨before, expr, after, hsplit, hbefore, hstep⟩

/-- Every error names a value that gives the reason: the value itself, or one that stands in it. -/
theorem refuses_of_ofValue
    {value : Value} {e : ParseError}
    (h : ofValue value = .error e) :
    (e.fragment = value ∨ e.fragment.Inside value) ∧ e.fragment.Refuses e.fault := by
  rcases ofValue_error_cases h with ⟨hfragment, hrefuses⟩ | ⟨before, expr, after, hsplit, -, hexpr⟩
  · exact ⟨.inl hfragment, hfragment ▸ hrefuses⟩
  · have hmem : Except.ok expr ∈ value.steps := by simp [hsplit]
    have hinside := Value.inside_of_mem_steps hmem
    obtain ⟨hplace, hrefuses⟩ := refuses_of_ofValue hexpr
    refine ⟨.inr ?_, hrefuses⟩
    rcases hplace with hsame | hdeeper
    · exact hsame ▸ hinside
    · exact hdeeper.trans hinside
termination_by sizeOf value
decreasing_by exact Value.sizeOf_lt_of_inside hinside

/-- A sequence of values is refused as the first that is. -/
theorem exists_of_ofValues
    {values : List Value} {e : ParseError}
    (h : ofValues values = .error e) :
    ∃ value ∈ values, ofValue value = .error e := by
  obtain ⟨before, value, after, rfl, -, hvalue⟩ := ofValues_eq_error_iff.1 h
  exact ⟨value, by simp, hvalue⟩

end Node

end Errors

section Sources

namespace Value

/-- No two keys of a map are equal, whichever is compared with the other. -/
def UnequalKeys : Value → Prop
  | .map entries =>
      (Entries.keys entries).Pairwise fun k k' => (k == k') = false ∧ (k' == k) = false
  | _ => True

theorem Regular.unequalKeys
    {value : Value}
    (h : value.Regular) :
    value.UnequalKeys := by
  cases value with
  | map entries =>
      obtain ⟨hdistinct, hentries⟩ := regular_map.1 h
      exact Entries.Distinct.unequal equivalenceOn_regular hentries hdistinct
  | _ => trivial

theorem readInvariant_someNumber :
    ReadInvariant SomeNumber where
  string _ := trivial
  run _ _ _ hvalue := by
    rcases Atom.value_cases hvalue with
      ⟨name, -, -, rfl⟩ | (⟨i, rfl⟩ | ⟨n, rfl⟩) | ⟨-, -, rfl⟩
    · trivial
    · trivial
    · exact n.isNaN_nearest
    · unfold Atom.word
      split <;> trivial
  list _ := trivial
  vector _ := trivial
  map _ := trivial

/-- What holds of everything that the reader produces. -/
def Produced (value : Value) : Prop :=
  value.Spelled ∧ value.SomeNumber ∧ value.UnequalKeys

theorem produced_of_readAll
    {source : String} {values : List Value}
    (h : readAll source = .ok values) :
    ∀ value ∈ values, value.Everywhere Produced := by
  intro value hvalue
  have hspelled := readInvariant_spelled.of_readAll h value hvalue
  have hnumber := readInvariant_someNumber.of_readAll h value hvalue
  have hdistinct := readInvariant_distinctKeys.of_readAll h value hvalue
  have hregular : value.Regular := everywhere_and.2 ⟨hnumber, hdistinct⟩
  have hunequal := hregular.everywhere.imp fun _ hv => Regular.unequalKeys hv
  exact everywhere_and.2 ⟨hspelled, everywhere_and.2 ⟨hnumber, hunequal⟩⟩

end Value

/-- The empty list is refused, or a special form. -/
def ParseError.OfList (e : ParseError) : Prop :=
  e.fault = .emptyList ∨ ∃ form, e.fault = .invalidForm form

/-- A text is refused by the reader, or for an empty list or a special form in it. -/
def Error.OfSource (source : String) (error : Error) : Prop :=
  (∃ e, error = .read source e) ∨ ∃ e : ParseError, error = .parse source e ∧ e.OfList

theorem Error.ofSource_of_steps
    {α β : Type} {source : String} {error : Error} {x : Except ReadError α}
    {f : α → Except ParseError β}
    (h : (do
      let a ← x.mapError (Error.read source)
      (f a).mapError (Error.parse source)) = .error error)
    (hrefused : ∀ a e, x = .ok a → f a = .error e → e.OfList) :
    error.OfSource source := by
  rcases bind_eq_error_iff.1 h with hread | ⟨a, hread, hparse⟩
  · obtain ⟨e, -, rfl⟩ := mapError_eq_error_iff.1 hread
    exact .inl ⟨e, rfl⟩
  · obtain ⟨e, he, rfl⟩ := mapError_eq_error_iff.1 hparse
    exact .inr ⟨e, rfl, hrefused a e (mapError_eq_ok_iff.1 hread) he⟩

namespace Node

/-- Every symbol in what the reader produces has a name. -/
theorem ofList_of_produced
    {value : Value} {e : ParseError}
    (hproduced : value.Everywhere Value.Produced)
    (h : ofValue value = .error e) :
    e.OfList := by
  obtain ⟨hplace, hrefuses⟩ := refuses_of_ofValue h
  have hfragment : e.fragment.Everywhere Value.Produced := by
    rcases hplace with hsame | hinside
    · exact hsame ▸ hproduced
    · exact hproduced.of_inside hinside
  have hspelled := (Value.everywhere_iff.1 hfragment).1.1
  rcases e with ⟨fault, fragment⟩
  cases hrefuses with
  | emptyList => exact .inl rfl
  | unnamed => exact absurd rfl hspelled.run.1
  | form form args => exact .inr ⟨form, rfl⟩

end Node

/-- What the reader produces of a text is spelled as it has to be, has no number that is none and
no map with two equal keys; and of a text nothing is refused as a program but empty lists and
special forms. -/
theorem Value.produced_of_source
    (source : String) :
    (∀ values, Value.readAll source = .ok values → ∀ value ∈ values, value.Everywhere Produced) ∧
      (∀ error, Node.parse source = .error error → error.OfSource source) ∧
        ∀ error, Node.parseAll source = .error error → error.OfSource source := by
  refine ⟨fun values h => produced_of_readAll h, fun error h => ?_, fun error h => ?_⟩
  · refine Error.ofSource_of_steps h fun value e hvalue hrefused => ?_
    have hall := produced_of_readAll (read_eq_ok_iff.1 hvalue)
    exact Node.ofList_of_produced (hall value List.mem_cons_self) hrefused
  · refine Error.ofSource_of_steps h fun values e hvalues hrefused => ?_
    obtain ⟨value, hmem, hrefused⟩ := Node.exists_of_ofValues hrefused
    exact Node.ofList_of_produced (produced_of_readAll hvalues value hmem) hrefused

end Sources

end TaskTree
