/-!
# Special forms

A list whose head is the name of a special form is not a call.  Each form has
its own rule for the arguments that it accepts.
-/

namespace TaskTree

/-- The operators that are reserved at the head of a list. -/
inductive SpecialForm where
  | definition
  | letBinding
  | conditional
  | function
  | sequence
  | parallel
  | join
  | logStep
deriving DecidableEq, Repr

namespace SpecialForm

/-- Every special form. -/
def all : List SpecialForm :=
  [.definition, .letBinding, .conditional, .function, .sequence, .parallel, .join, .logStep]

/-- The name under which a form is written in source text. -/
def name : SpecialForm → String
  | .definition => "def"
  | .letBinding => "let"
  | .conditional => "if"
  | .function => "fn"
  | .sequence => "do"
  | .parallel => "parallel"
  | .join => "join"
  | .logStep => "log-step"

/-- The form of the given name. -/
def ofName? (text : String) : Option SpecialForm :=
  all.find? fun form => form.name == text

/-- The label of a form where program trees are written out. -/
def label : SpecialForm → String
  | .definition => "Def"
  | .letBinding => "Let"
  | .conditional => "If"
  | .function => "Fn"
  | .sequence => "Do"
  | .parallel => "Parallel"
  | .join => "Join"
  | .logStep => "LogStep"

/-- The arguments that a form requires. -/
def expectedShape : SpecialForm → String
  | .definition => "def requires a symbol and one value expression"
  | .letBinding => "let requires a vector of symbol/expression pairs followed by a body"
  | .conditional => "if requires exactly three arguments: condition, then and else"
  | .function => "fn requires a vector of parameter symbols followed by a body"
  | .sequence => "do accepts any number of expressions"
  | .parallel => "parallel requires a single vector of [id expr] pairs"
  | .join => "join requires symbol arguments"
  | .logStep => "log-step requires :id, a step symbol and one expression"

/-- Every form is found under its name, and under no other. -/
theorem ofName?_eq_some_iff
    {text : String} {form : SpecialForm} :
    ofName? text = some form ↔ text = form.name := by
  constructor
  · intro h
    have hname := List.find?_some h
    exact (by simpa using hname : form.name = text).symm
  · rintro rfl
    cases form <;> decide

end SpecialForm
end TaskTree
