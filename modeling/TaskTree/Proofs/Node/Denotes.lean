import Mathlib.Tactic.Common
import TaskTree.Node.OfValue
import TaskTree.Node.ToValue
import TaskTree.Proofs.Except

/-!
# Which value denotes which program

`Value.Denotes` says declaratively which value is understood as which program
tree, with one rule for each kind of node.  A rule lists the parts of a value
together with the nodes that they denote, as a sequence of pairs.

For each special form there is a lemma that says exactly when `Node.ofValue`
understands its arguments; everything else about successful understanding is
derived from these.

**Results.**
* `Node.ofValue_eq_ok_iff`: understanding a value succeeds with a node exactly
  if the value denotes that node.
-/

namespace TaskTree

section Names

/-- A reference has a name. -/
def Symbol.Named (symbol : Symbol) : Prop :=
  symbol.name ≠ ""

theorem Symbol.ofValue?_eq_some_iff
    {value : Value} {symbol : Symbol} :
    Symbol.ofValue? value = some symbol ↔ value = symbol.toValue ∧ symbol.Named := by
  obtain ⟨name⟩ := symbol
  cases value <;> simp [Symbol.ofValue?, Symbol.toValue, Symbol.Named]
  grind

theorem Symbol.ofValues?_eq_some_iff
    {values : List Value} {symbols : List Symbol} :
    Symbol.ofValues? values = some symbols ↔
      values = symbols.map Symbol.toValue ∧ ∀ s ∈ symbols, s.Named := by
  induction values generalizing symbols with
  | nil =>
      cases symbols <;> simp [Symbol.ofValues?]
  | cons value values ih =>
      simp only [Symbol.ofValues?, Option.bind_eq_bind, Option.bind_eq_some_iff,
        Symbol.ofValue?_eq_some_iff, ih, Option.pure_def, Option.some.injEq]
      constructor
      · rintro ⟨s, ⟨rfl, hs⟩, ss, ⟨rfl, hss⟩, rfl⟩
        exact ⟨rfl, List.forall_mem_cons.2 ⟨hs, hss⟩⟩
      · rintro ⟨hvalues, hnamed⟩
        cases symbols with
        | nil => cases hvalues
        | cons s ss =>
            obtain ⟨rfl, rfl⟩ := List.cons.inj hvalues
            obtain ⟨hs, hss⟩ := List.forall_mem_cons.1 hnamed
            exact ⟨s, ⟨rfl, hs⟩, ss, ⟨rfl, hss⟩, rfl⟩

/-- A value that names no special form. -/
def Value.Unreserved (value : Value) : Prop :=
  ∀ form : SpecialForm, value ≠ .symbol form.name

theorem SpecialForm.ofHead?_eq_some_iff
    {head : Value} {form : SpecialForm} :
    SpecialForm.ofHead? head = some form ↔ head = .symbol form.name := by
  cases head <;>
    simp [SpecialForm.ofHead?, Value.symbolName?, SpecialForm.ofName?_eq_some_iff]

@[simp] theorem SpecialForm.ofHead?_symbol
    (form : SpecialForm) :
    SpecialForm.ofHead? (.symbol form.name) = some form :=
  SpecialForm.ofHead?_eq_some_iff.2 rfl

theorem SpecialForm.ofHead?_eq_none_iff
    {head : Value} :
    SpecialForm.ofHead? head = none ↔ head.Unreserved := by
  simp [Option.eq_none_iff_forall_ne_some, SpecialForm.ofHead?_eq_some_iff, Value.Unreserved]

end Names

section Rules

/-- A value that stands for itself: an atom other than a symbol, a vector, or a map that
describes no task. -/
inductive Value.SelfEvaluating : Value → Prop
  | nil : SelfEvaluating .nil
  | boolean (flag : Bool) : SelfEvaluating (.boolean flag)
  | integer (number : Int64) : SelfEvaluating (.integer number)
  | float (number : Float) : SelfEvaluating (.float number)
  | string (text : String) : SelfEvaluating (.string text)
  | keyword (name : String) : SelfEvaluating (.keyword name)
  | vector (items : List Value) : SelfEvaluating (.vector items)
  | map {entries : Entries} (h : entries.isTask = false) : SelfEvaluating (.map entries)

/-- The items of a binding vector: names and expressions in turn. -/
def Value.flatItems (bindings : List (Symbol × Value × Node)) : List Value :=
  bindings.flatMap fun b => [b.1.toValue, b.2.1]

@[simp] theorem Value.length_flatItems
    (bindings : List (Symbol × Value × Node)) :
    (Value.flatItems bindings).length = 2 * bindings.length := by
  induction bindings with
  | nil => rfl
  | cons b bindings ih =>
      simp only [Value.flatItems, List.flatMap_cons, List.length_append, List.length_cons,
        List.length_nil] at ih ⊢
      omega

/-- The items of a vector of bindings: a vector of name and expression for each. -/
def Value.pairedItems (bindings : List (Symbol × Value × Node)) : List Value :=
  bindings.map fun b => .vector [b.1.toValue, b.2.1]

/-- The names that are bound, each with the node of its expression. -/
def Node.boundNodes (bindings : List (Symbol × Value × Node)) : List (Symbol × Node) :=
  bindings.map fun b => (b.1, b.2.2)

/-- The value is understood as the node. -/
inductive Value.Denotes : Value → Node → Prop
  | literal
      {value : Value}
      (hself : value.SelfEvaluating) :
      Denotes value (.literal value)
  | symbol
      {s : Symbol}
      (hnamed : s.Named) :
      Denotes s.toValue (.symbol s)
  | call
      {head : Value × Node} {args : List (Value × Node)}
      (hhead : head.1.Unreserved)
      (h : ∀ e ∈ head :: args, Denotes e.1 e.2) :
      Denotes (.list (head.1 :: args.map Prod.fst)) (.call (head.2 :: args.map Prod.snd))
  | sequence
      {body : List (Value × Node)}
      (h : ∀ e ∈ body, Denotes e.1 e.2) :
      Denotes (SpecialForm.sequence.applied (body.map Prod.fst)) (.sequence (body.map Prod.snd))
  | definition
      {target : Symbol} {value : Value} {node : Node}
      (hnamed : target.Named)
      (h : Denotes value node) :
      Denotes (SpecialForm.definition.applied [target.toValue, value]) (.definition target node)
  | letBinding
      {bindings : List (Symbol × Value × Node)} {body : List (Value × Node)}
      (hnamed : ∀ b ∈ bindings, b.1.Named)
      (hexpr : ∀ b ∈ bindings, Denotes b.2.1 b.2.2)
      (h : ∀ e ∈ body, Denotes e.1 e.2) :
      Denotes
        (SpecialForm.letBinding.applied
          (.vector (Value.flatItems bindings) :: body.map Prod.fst))
        (.letBinding (Node.boundNodes bindings) (body.map Prod.snd))
  | conditional
      {c t e : Value} {c' t' e' : Node}
      (hcondition : Denotes c c')
      (hthen : Denotes t t')
      (helse : Denotes e e') :
      Denotes (SpecialForm.conditional.applied [c, t, e]) (.conditional c' t' e')
  | function
      {params : List Symbol} {body : List (Value × Node)}
      (hnamed : ∀ p ∈ params, p.Named)
      (h : ∀ e ∈ body, Denotes e.1 e.2) :
      Denotes
        (SpecialForm.function.applied
          (.vector (params.map Symbol.toValue) :: body.map Prod.fst))
        (.function params (body.map Prod.snd))
  | parallel
      {bindings : List (Symbol × Value × Node)}
      (hnamed : ∀ b ∈ bindings, b.1.Named)
      (hexpr : ∀ b ∈ bindings, Denotes b.2.1 b.2.2) :
      Denotes
        (SpecialForm.parallel.applied [.vector (Value.pairedItems bindings)])
        (.parallel (Node.boundNodes bindings))
  | join
      {ids : List Symbol}
      (hnamed : ∀ id ∈ ids, id.Named) :
      Denotes (SpecialForm.join.applied (ids.map Symbol.toValue)) (.join ids)
  | logStep
      {id : Symbol} {expr : Value} {node : Node}
      (hnamed : id.Named)
      (h : Denotes expr node) :
      Denotes (SpecialForm.logStep.applied [.keyword "id", id.toValue, expr]) (.logStep id node)
  | task
      {entries : Entries} {plan : Value} {node : Node}
      (hid : entries.hasKeyword "id" = true)
      (hplan : entries.keyword? "plan" = some plan)
      (h : Denotes plan node) :
      Denotes (.map entries) (.task (TaskDetails.ofEntries entries) node)

end Rules

section Understanding

namespace Node

theorem ofValues_eq_ok_iff
    {values : List Value} {nodes : List Node} :
    ofValues values = .ok nodes ↔
      ∃ es : List (Value × Node), values = es.map Prod.fst ∧ nodes = es.map Prod.snd ∧
        ∀ e ∈ es, ofValue e.1 = .ok e.2 := by
  constructor
  · intro h
    induction values generalizing nodes with
    | nil =>
        cases h
        exact ⟨[], rfl, rfl, by simp⟩
    | cons value values ih =>
        simp only [ofValues] at h
        obtain ⟨node, hvalue, h⟩ := ok_of_bind_eq_ok h
        obtain ⟨nodes, hvalues, h⟩ := ok_of_bind_eq_ok h
        cases h
        obtain ⟨es, rfl, rfl, hes⟩ := ih hvalues
        exact ⟨(value, node) :: es, rfl, rfl, List.forall_mem_cons.2 ⟨hvalue, hes⟩⟩
  · rintro ⟨es, rfl, rfl, hes⟩
    induction es with
    | nil => rfl
    | cons e es ih =>
        obtain ⟨he, hes⟩ := List.forall_mem_cons.1 hes
        simp only [List.map_cons, ofValues, he, ih hes, ok_bind_eq]
        rfl

theorem ofPlan_eq_ok_iff
    {missing : ParseError} {entries : Entries} {node : Node} :
    ofPlan missing entries = .ok node ↔
      ∃ plan, entries.keyword? "plan" = some plan ∧ ofValue plan = .ok node := by
  induction entries with
  | nil => simp [ofPlan, Entries.keyword?]
  | cons entry entries ih =>
      rcases entry with ⟨key, value⟩
      by_cases hkey : key.isKeyword "plan" = true
      · simp [ofPlan, Entries.keyword?, hkey]
      · simp [ofPlan, Entries.keyword?, hkey, ih]

theorem ofFlatBindings_eq_ok_iff
    {unnamed : ParseError} {items : List Value} {bound : List (Symbol × Node)}
    (heven : items.length % 2 = 0) :
    ofFlatBindings unnamed items = .ok bound ↔
      ∃ bindings, items = Value.flatItems bindings ∧ bound = boundNodes bindings ∧
        ∀ b ∈ bindings, b.1.Named ∧ ofValue b.2.1 = .ok b.2.2 := by
  constructor
  · intro h
    match items, heven with
    | [], _ =>
        cases h
        exact ⟨[], rfl, rfl, by simp⟩
    | name :: expr :: items, heven =>
        simp only [ofFlatBindings] at h
        split at h
        · next target hname =>
          obtain ⟨rfl, hnamed⟩ := Symbol.ofValue?_eq_some_iff.1 hname
          obtain ⟨node, hexpr, h⟩ := ok_of_bind_eq_ok h
          obtain ⟨bound, hitems, h⟩ := ok_of_bind_eq_ok h
          cases h
          have heven' : items.length % 2 = 0 := by
            simp only [List.length_cons] at heven
            omega
          obtain ⟨bindings, rfl, rfl, hbindings⟩ :=
            (ofFlatBindings_eq_ok_iff heven').1 hitems
          exact ⟨(target, expr, node) :: bindings, rfl, rfl,
            List.forall_mem_cons.2 ⟨⟨hnamed, hexpr⟩, hbindings⟩⟩
        · cases h
  · rintro ⟨bindings, rfl, rfl, hbindings⟩
    clear heven
    induction bindings with
    | nil => simp [Value.flatItems, ofFlatBindings, boundNodes]
    | cons b bindings ih =>
        obtain ⟨⟨hnamed, hexpr⟩, hbindings⟩ := List.forall_mem_cons.1 hbindings
        have hname := Symbol.ofValue?_eq_some_iff.2 ⟨rfl, hnamed⟩
        have htail := ih hbindings
        simp only [Value.flatItems, List.flatMap_cons, List.cons_append, List.nil_append,
          ofFlatBindings, hname, hexpr, ok_bind_eq] at htail ⊢
        rw [htail]
        rfl
termination_by items.length

theorem ofPairedBindings_eq_ok_iff
    {unnamed : ParseError} {items : List Value} {bound : List (Symbol × Node)} :
    ofPairedBindings unnamed items = .ok bound ↔
      ∃ bindings, items = Value.pairedItems bindings ∧ bound = boundNodes bindings ∧
        ∀ b ∈ bindings, b.1.Named ∧ ofValue b.2.1 = .ok b.2.2 := by
  constructor
  · intro h
    induction items generalizing bound with
    | nil =>
        cases h
        exact ⟨[], rfl, rfl, by simp⟩
    | cons item items ih =>
        rw [ofPairedBindings.eq_def] at h
        split at h
        · next hitem => cases hitem
        · next id expr rest hitem =>
          cases hitem
          split at h
          · next target hname =>
            obtain ⟨rfl, hnamed⟩ := Symbol.ofValue?_eq_some_iff.1 hname
            obtain ⟨node, hexpr, h⟩ := ok_of_bind_eq_ok h
            obtain ⟨bound, hitems, h⟩ := ok_of_bind_eq_ok h
            cases h
            obtain ⟨bindings, rfl, rfl, hbindings⟩ := ih hitems
            exact ⟨(target, expr, node) :: bindings, rfl, rfl,
              List.forall_mem_cons.2 ⟨⟨hnamed, hexpr⟩, hbindings⟩⟩
          · cases h
        · cases h
  · rintro ⟨bindings, rfl, rfl, hbindings⟩
    induction bindings with
    | nil => rfl
    | cons b bindings ih =>
        obtain ⟨⟨hnamed, hexpr⟩, hbindings⟩ := List.forall_mem_cons.1 hbindings
        have hname := Symbol.ofValue?_eq_some_iff.2 ⟨rfl, hnamed⟩
        have htail := ih hbindings
        simp only [Value.pairedItems, List.map_cons, ofPairedBindings, hname, hexpr,
          ok_bind_eq] at htail ⊢
        rw [htail]
        rfl

/-- How a value is understood, by the shape of the value and the form it applies. -/
alias ofValue_def := ofValue.eq_def

theorem ofValue_call_eq_ok_iff
    {head : Value} {args : List Value} {node : Node}
    (hhead : head.Unreserved) :
    ofValue (.list (head :: args)) = .ok node ↔
      ∃ (headNode : Node) (es : List (Value × Node)),
        args = es.map Prod.fst ∧ node = .call (headNode :: es.map Prod.snd) ∧
          ofValue head = .ok headNode ∧ ∀ e ∈ es, ofValue e.1 = .ok e.2 := by
  rw [ofValue_def]
  simp only [SpecialForm.ofHead?_eq_none_iff.2 hhead]
  constructor
  · intro h
    obtain ⟨headNode, hheadNode, h⟩ := ok_of_bind_eq_ok h
    obtain ⟨nodes, hargs, h⟩ := ok_of_bind_eq_ok h
    cases h
    obtain ⟨es, rfl, rfl, hes⟩ := ofValues_eq_ok_iff.1 hargs
    exact ⟨headNode, es, rfl, rfl, hheadNode, hes⟩
  · rintro ⟨headNode, es, rfl, rfl, hheadNode, hes⟩
    rw [hheadNode, ofValues_eq_ok_iff.2 ⟨es, rfl, rfl, hes⟩]
    rfl

theorem ofValue_sequence_eq_ok_iff
    {args : List Value} {node : Node} :
    ofValue (SpecialForm.sequence.applied args) = .ok node ↔
      ∃ es : List (Value × Node), args = es.map Prod.fst ∧
        node = .sequence (es.map Prod.snd) ∧ ∀ e ∈ es, ofValue e.1 = .ok e.2 := by
  rw [SpecialForm.applied, ofValue_def]
  simp only [SpecialForm.ofHead?_symbol]
  constructor
  · intro h
    obtain ⟨nodes, hargs, h⟩ := ok_of_bind_eq_ok h
    cases h
    obtain ⟨es, rfl, rfl, hes⟩ := ofValues_eq_ok_iff.1 hargs
    exact ⟨es, rfl, rfl, hes⟩
  · rintro ⟨es, rfl, rfl, hes⟩
    rw [ofValues_eq_ok_iff.2 ⟨es, rfl, rfl, hes⟩]
    rfl

theorem ofValue_join_eq_ok_iff
    {args : List Value} {node : Node} :
    ofValue (SpecialForm.join.applied args) = .ok node ↔
      ∃ ids : List Symbol, args = ids.map Symbol.toValue ∧ node = .join ids ∧
        ∀ id ∈ ids, id.Named := by
  rw [SpecialForm.applied, ofValue_def]
  simp only [SpecialForm.ofHead?_symbol]
  constructor
  · intro h
    split at h
    · next ids hids =>
      cases h
      obtain ⟨rfl, hnamed⟩ := Symbol.ofValues?_eq_some_iff.1 hids
      exact ⟨ids, rfl, rfl, hnamed⟩
    · cases h
  · rintro ⟨ids, rfl, rfl, hnamed⟩
    rw [Symbol.ofValues?_eq_some_iff.2 ⟨rfl, hnamed⟩]

theorem ofValue_definition_eq_ok_iff
    {args : List Value} {node : Node} :
    ofValue (SpecialForm.definition.applied args) = .ok node ↔
      ∃ (target : Symbol) (value : Value) (expr : Node),
        args = [target.toValue, value] ∧ node = .definition target expr ∧
          target.Named ∧ ofValue value = .ok expr := by
  rw [SpecialForm.applied, ofValue_def]
  simp only [SpecialForm.ofHead?_symbol]
  constructor
  · intro h
    split at h
    · split at h
      · next target hname =>
        obtain ⟨rfl, hnamed⟩ := Symbol.ofValue?_eq_some_iff.1 hname
        obtain ⟨expr, hvalue, h⟩ := ok_of_bind_eq_ok h
        cases h
        exact ⟨target, _, expr, rfl, rfl, hnamed, hvalue⟩
      · cases h
    · cases h
  · rintro ⟨target, value, expr, rfl, rfl, hnamed, hvalue⟩
    simp only [Symbol.ofValue?_eq_some_iff.2 ⟨rfl, hnamed⟩, hvalue]
    rfl

theorem ofValue_letBinding_eq_ok_iff
    {args : List Value} {node : Node} :
    ofValue (SpecialForm.letBinding.applied args) = .ok node ↔
      ∃ (bindings : List (Symbol × Value × Node)) (es : List (Value × Node)),
        args = .vector (Value.flatItems bindings) :: es.map Prod.fst ∧
          node = .letBinding (boundNodes bindings) (es.map Prod.snd) ∧
          (∀ b ∈ bindings, b.1.Named ∧ ofValue b.2.1 = .ok b.2.2) ∧
          ∀ e ∈ es, ofValue e.1 = .ok e.2 := by
  rw [SpecialForm.applied, ofValue_def]
  simp only [SpecialForm.ofHead?_symbol]
  constructor
  · intro h
    split at h
    · split at h
      · next heven =>
        obtain ⟨bound, hgroup, h⟩ := ok_of_bind_eq_ok h
        obtain ⟨nodes, hbody, h⟩ := ok_of_bind_eq_ok h
        cases h
        obtain ⟨bindings, rfl, rfl, hbindings⟩ := (ofFlatBindings_eq_ok_iff heven).1 hgroup
        obtain ⟨es, rfl, rfl, hes⟩ := ofValues_eq_ok_iff.1 hbody
        exact ⟨bindings, es, rfl, rfl, hbindings, hes⟩
      · cases h
    · cases h
  · rintro ⟨bindings, es, rfl, rfl, hbindings, hes⟩
    have heven : (Value.flatItems bindings).length % 2 = 0 := by
      simp
    simp only [heven, if_true,
      (ofFlatBindings_eq_ok_iff heven).2 ⟨bindings, rfl, rfl, hbindings⟩,
      ofValues_eq_ok_iff.2 ⟨es, rfl, rfl, hes⟩]
    rfl

theorem ofValue_conditional_eq_ok_iff
    {args : List Value} {node : Node} :
    ofValue (SpecialForm.conditional.applied args) = .ok node ↔
      ∃ (c t e : Value) (c' t' e' : Node),
        args = [c, t, e] ∧ node = .conditional c' t' e' ∧
          ofValue c = .ok c' ∧ ofValue t = .ok t' ∧ ofValue e = .ok e' := by
  rw [SpecialForm.applied, ofValue_def]
  simp only [SpecialForm.ofHead?_symbol]
  constructor
  · intro h
    split at h
    · obtain ⟨c', hc, h⟩ := ok_of_bind_eq_ok h
      obtain ⟨t', ht, h⟩ := ok_of_bind_eq_ok h
      obtain ⟨e', he, h⟩ := ok_of_bind_eq_ok h
      cases h
      exact ⟨_, _, _, c', t', e', rfl, rfl, hc, ht, he⟩
    · cases h
  · rintro ⟨c, t, e, c', t', e', rfl, rfl, hc, ht, he⟩
    simp only [hc, ht, he]
    rfl

theorem ofValue_function_eq_ok_iff
    {args : List Value} {node : Node} :
    ofValue (SpecialForm.function.applied args) = .ok node ↔
      ∃ (params : List Symbol) (es : List (Value × Node)),
        args = .vector (params.map Symbol.toValue) :: es.map Prod.fst ∧
          node = .function params (es.map Prod.snd) ∧
          (∀ p ∈ params, p.Named) ∧ ∀ e ∈ es, ofValue e.1 = .ok e.2 := by
  rw [SpecialForm.applied, ofValue_def]
  simp only [SpecialForm.ofHead?_symbol]
  constructor
  · intro h
    split at h
    · split at h
      · next params hparams =>
        obtain ⟨nodes, hbody, h⟩ := ok_of_bind_eq_ok h
        cases h
        obtain ⟨rfl, hnamed⟩ := Symbol.ofValues?_eq_some_iff.1 hparams
        obtain ⟨es, rfl, rfl, hes⟩ := ofValues_eq_ok_iff.1 hbody
        exact ⟨params, es, rfl, rfl, hnamed, hes⟩
      · cases h
    · cases h
  · rintro ⟨params, es, rfl, rfl, hnamed, hes⟩
    simp only [Symbol.ofValues?_eq_some_iff.2 ⟨rfl, hnamed⟩,
      ofValues_eq_ok_iff.2 ⟨es, rfl, rfl, hes⟩]
    rfl

theorem ofValue_parallel_eq_ok_iff
    {args : List Value} {node : Node} :
    ofValue (SpecialForm.parallel.applied args) = .ok node ↔
      ∃ bindings : List (Symbol × Value × Node),
        args = [.vector (Value.pairedItems bindings)] ∧
          node = .parallel (boundNodes bindings) ∧
          ∀ b ∈ bindings, b.1.Named ∧ ofValue b.2.1 = .ok b.2.2 := by
  rw [SpecialForm.applied, ofValue_def]
  simp only [SpecialForm.ofHead?_symbol]
  constructor
  · intro h
    split at h
    · obtain ⟨bound, hgroup, h⟩ := ok_of_bind_eq_ok h
      cases h
      obtain ⟨bindings, rfl, rfl, hbindings⟩ := ofPairedBindings_eq_ok_iff.1 hgroup
      exact ⟨bindings, rfl, rfl, hbindings⟩
    · cases h
  · rintro ⟨bindings, rfl, rfl, hbindings⟩
    simp only [ofPairedBindings_eq_ok_iff.2 ⟨bindings, rfl, rfl, hbindings⟩]
    rfl

theorem ofValue_logStep_eq_ok_iff
    {args : List Value} {node : Node} :
    ofValue (SpecialForm.logStep.applied args) = .ok node ↔
      ∃ (id : Symbol) (expr : Value) (exprNode : Node),
        args = [.keyword "id", id.toValue, expr] ∧ node = .logStep id exprNode ∧
          id.Named ∧ ofValue expr = .ok exprNode := by
  rw [SpecialForm.applied, ofValue_def]
  simp only [SpecialForm.ofHead?_symbol]
  constructor
  · intro h
    split at h
    · split at h
      · next id hmarker hname =>
        obtain rfl := Value.isKeyword_iff.1 hmarker
        obtain ⟨rfl, hnamed⟩ := Symbol.ofValue?_eq_some_iff.1 hname
        obtain ⟨exprNode, hexpr, h⟩ := ok_of_bind_eq_ok h
        cases h
        exact ⟨id, _, exprNode, rfl, rfl, hnamed, hexpr⟩
      · cases h
    · cases h
  · rintro ⟨id, expr, exprNode, rfl, rfl, hnamed, hexpr⟩
    simp only [Symbol.ofValue?_eq_some_iff.2 ⟨rfl, hnamed⟩, Value.isKeyword_iff.2 rfl, hexpr]
    rfl

theorem ofValue_map_eq_ok_iff
    {entries : Entries} {node : Node} :
    ofValue (.map entries) = .ok node ↔
      (entries.isTask = false ∧ node = .literal (.map entries)) ∨
        ∃ (plan : Value) (planNode : Node),
          entries.hasKeyword "id" = true ∧ entries.keyword? "plan" = some plan ∧
            node = .task (TaskDetails.ofEntries entries) planNode ∧
            ofValue plan = .ok planNode := by
  rw [ofValue_def]
  constructor
  · intro h
    dsimp only at h
    split at h
    · next htask =>
      obtain ⟨planNode, hplan, h⟩ := ok_of_bind_eq_ok h
      cases h
      obtain ⟨plan, hfound, hplan⟩ := ofPlan_eq_ok_iff.1 hplan
      exact .inr ⟨plan, planNode, (Bool.and_eq_true_iff.1 htask).1, hfound, rfl, hplan⟩
    · next htask =>
      cases h
      exact .inl ⟨by simpa using htask, rfl⟩
  · rintro (⟨htask, rfl⟩ | ⟨plan, planNode, hid, hfound, rfl, hplan⟩)
    · simp [htask]
    · have htask : entries.isTask = true := by
        simp [Entries.isTask, hid, Entries.hasKeyword.eq_def entries "plan", hfound]
      simp only [htask, if_true, ofPlan_eq_ok_iff.2 ⟨plan, hfound, hplan⟩]
      rfl

end Node

end Understanding

section Agreement

/-- Whatever holds of a value as soon as it holds of all smaller ones holds of every value. -/
theorem Value.strongInduction
    {P : Value → Prop}
    (step : ∀ value, (∀ part, sizeOf part < sizeOf value → P part) → P value)
    (value : Value) :
    P value :=
  (measure sizeOf).wf.induction value step

theorem Value.sizeOf_lt_flatItems
    {bindings : List (Symbol × Value × Node)} {b : Symbol × Value × Node}
    (hb : b ∈ bindings) :
    sizeOf b.2.1 < sizeOf (Value.flatItems bindings) :=
  List.sizeOf_lt_of_mem (List.mem_flatMap.2 ⟨b, hb, by simp⟩)

theorem Value.sizeOf_lt_pairedItems
    {bindings : List (Symbol × Value × Node)} {b : Symbol × Value × Node}
    (hb : b ∈ bindings) :
    sizeOf b.2.1 < sizeOf (Value.pairedItems bindings) := by
  have hitem : sizeOf (Value.vector [b.1.toValue, b.2.1]) < sizeOf (Value.pairedItems bindings) :=
    List.sizeOf_lt_of_mem (List.mem_map_of_mem hb)
  have hexpr : sizeOf b.2.1 < sizeOf (Value.vector [b.1.toValue, b.2.1]) := by
    simp
    omega
  exact Nat.lt_trans hexpr hitem

theorem Entries.sizeOf_keyword?_lt
    {entries : Entries} {name : String} {value : Value}
    (h : entries.keyword? name = some value) :
    sizeOf value < sizeOf entries := by
  induction entries with
  | nil => cases h
  | cons entry entries ih =>
      rcases entry with ⟨key, value'⟩
      simp only [Entries.keyword?] at h
      split at h
      · cases h
        simp
        omega
      · have := ih h
        simp
        omega

theorem Value.sizeOf_lt_map_fst
    {es : List (Value × Node)} {e : Value × Node}
    (he : e ∈ es) :
    sizeOf e.1 < sizeOf (es.map Prod.fst) :=
  List.sizeOf_lt_of_mem (List.mem_map_of_mem he)

namespace Value.Denotes

theorem of_call
    {head : Value} {args : List Value} {node : Node}
    (ih : ∀ part, sizeOf part < sizeOf (Value.list (head :: args)) →
      ∀ {node}, Node.ofValue part = .ok node → part.Denotes node)
    (hhead : head.Unreserved)
    (h : Node.ofValue (.list (head :: args)) = .ok node) :
    Denotes (.list (head :: args)) node := by
  obtain ⟨headNode, es, rfl, rfl, hheadNode, hes⟩ := (Node.ofValue_call_eq_ok_iff hhead).1 h
  refine @Denotes.call (head, headNode) es hhead ?_
  refine List.forall_mem_cons.2 ⟨ih head (by simp; omega) hheadNode, ?_⟩
  intro e he
  have hsize := sizeOf_lt_map_fst he
  exact ih e.1 (by simp; omega) (hes e he)

theorem of_form
    {form : SpecialForm} {args : List Value} {node : Node}
    (ih : ∀ part, sizeOf part < sizeOf (form.applied args) →
      ∀ {node}, Node.ofValue part = .ok node → part.Denotes node)
    (h : Node.ofValue (form.applied args) = .ok node) :
    Denotes (form.applied args) node := by
  -- an argument, and what stands in the vector of an argument, is smaller than the form
  have harg :
      ∀ {values : List Value}, sizeOf values ≤ sizeOf args →
        ∀ {part : Value}, sizeOf part < sizeOf values →
          ∀ {node}, Node.ofValue part = .ok node → part.Denotes node := by
    intro values hvalues part hpart
    refine ih part ?_
    simp [SpecialForm.applied]
    omega
  cases form with
  | definition =>
      obtain ⟨target, value, expr, rfl, rfl, hnamed, hvalue⟩ :=
        Node.ofValue_definition_eq_ok_iff.1 h
      exact .definition hnamed (harg (Nat.le_refl _) (by simp; omega) hvalue)
  | letBinding =>
      obtain ⟨bindings, es, rfl, rfl, hbindings, hes⟩ := Node.ofValue_letBinding_eq_ok_iff.1 h
      refine .letBinding (fun b hb => (hbindings b hb).1) ?_ ?_
      · intro b hb
        exact harg (by simp; omega) (sizeOf_lt_flatItems hb) (hbindings b hb).2
      · intro e he
        exact harg (by simp) (sizeOf_lt_map_fst he) (hes e he)
  | conditional =>
      obtain ⟨c, t, e, c', t', e', rfl, rfl, hc, ht, he⟩ :=
        Node.ofValue_conditional_eq_ok_iff.1 h
      exact .conditional (harg (Nat.le_refl _) (by simp; omega) hc)
        (harg (Nat.le_refl _) (by simp; omega) ht) (harg (Nat.le_refl _) (by simp; omega) he)
  | function =>
      obtain ⟨params, es, rfl, rfl, hnamed, hes⟩ := Node.ofValue_function_eq_ok_iff.1 h
      refine .function hnamed ?_
      intro e he
      exact harg (by simp) (sizeOf_lt_map_fst he) (hes e he)
  | sequence =>
      obtain ⟨es, rfl, rfl, hes⟩ := Node.ofValue_sequence_eq_ok_iff.1 h
      refine .sequence ?_
      intro e he
      exact harg (Nat.le_refl _) (sizeOf_lt_map_fst he) (hes e he)
  | parallel =>
      obtain ⟨bindings, rfl, rfl, hbindings⟩ := Node.ofValue_parallel_eq_ok_iff.1 h
      refine .parallel (fun b hb => (hbindings b hb).1) ?_
      intro b hb
      exact harg (by simp; omega) (sizeOf_lt_pairedItems hb) (hbindings b hb).2
  | join =>
      obtain ⟨ids, rfl, rfl, hnamed⟩ := Node.ofValue_join_eq_ok_iff.1 h
      exact .join hnamed
  | logStep =>
      obtain ⟨id, expr, exprNode, rfl, rfl, hnamed, hexpr⟩ :=
        Node.ofValue_logStep_eq_ok_iff.1 h
      exact .logStep hnamed (harg (Nat.le_refl _) (by simp; omega) hexpr)

/-- A value that is understood as a node denotes it. -/
theorem of_ofValue
    {value : Value} {node : Node}
    (h : Node.ofValue value = .ok node) :
    value.Denotes node := by
  induction value using Value.strongInduction generalizing node with
  | step value ih =>
      cases value with
      | nil => cases h; exact .literal .nil
      | boolean flag => cases h; exact .literal (.boolean flag)
      | integer number => cases h; exact .literal (.integer number)
      | float number => cases h; exact .literal (.float number)
      | string text => cases h; exact .literal (.string text)
      | keyword name => cases h; exact .literal (.keyword name)
      | vector items => cases h; exact .literal (.vector items)
      | symbol name =>
          simp only [Node.ofValue] at h
          split at h
          · cases h
          · next hname =>
            cases h
            exact .symbol (s := ⟨name⟩) (by simpa [Symbol.Named] using hname)
      | map entries =>
          rcases Node.ofValue_map_eq_ok_iff.1 h with
            ⟨htask, rfl⟩ | ⟨plan, planNode, hid, hfound, rfl, hplan⟩
          · exact .literal (.map htask)
          · have hsize := Entries.sizeOf_keyword?_lt hfound
            exact .task hid hfound (ih plan (by simp; omega) hplan)
      | list items =>
          cases items with
          | nil => cases h
          | cons head args =>
              cases hform : SpecialForm.ofHead? head with
              | none => exact of_call ih (SpecialForm.ofHead?_eq_none_iff.1 hform) h
              | some form =>
                  obtain rfl := SpecialForm.ofHead?_eq_some_iff.1 hform
                  exact of_form ih h

/-- A value that denotes a node is understood as that node. -/
theorem ofValue
    {value : Value} {node : Node}
    (h : value.Denotes node) :
    Node.ofValue value = .ok node := by
  induction h with
  | literal hself =>
      cases hself with
      | map htask => exact Node.ofValue_map_eq_ok_iff.2 (.inl ⟨htask, rfl⟩)
      | _ => rfl
  | symbol hnamed =>
      simp only [Symbol.toValue, Node.ofValue, String.isEmpty_iff]
      exact if_neg hnamed
  | call hhead _ ih =>
      obtain ⟨ihHead, ihArgs⟩ := List.forall_mem_cons.1 ih
      exact (Node.ofValue_call_eq_ok_iff hhead).2 ⟨_, _, rfl, rfl, ihHead, ihArgs⟩
  | sequence _ ih =>
      exact Node.ofValue_sequence_eq_ok_iff.2 ⟨_, rfl, rfl, ih⟩
  | definition hnamed _ ih =>
      exact Node.ofValue_definition_eq_ok_iff.2 ⟨_, _, _, rfl, rfl, hnamed, ih⟩
  | letBinding hnamed _ _ ihBindings ihBody =>
      exact Node.ofValue_letBinding_eq_ok_iff.2
        ⟨_, _, rfl, rfl, fun b hb => ⟨hnamed b hb, ihBindings b hb⟩, ihBody⟩
  | conditional _ _ _ ihc iht ihe =>
      exact Node.ofValue_conditional_eq_ok_iff.2 ⟨_, _, _, _, _, _, rfl, rfl, ihc, iht, ihe⟩
  | function hnamed _ ih =>
      exact Node.ofValue_function_eq_ok_iff.2 ⟨_, _, rfl, rfl, hnamed, ih⟩
  | parallel hnamed _ ih =>
      exact Node.ofValue_parallel_eq_ok_iff.2
        ⟨_, rfl, rfl, fun b hb => ⟨hnamed b hb, ih b hb⟩⟩
  | join hnamed =>
      exact Node.ofValue_join_eq_ok_iff.2 ⟨_, rfl, rfl, hnamed⟩
  | logStep hnamed _ ih =>
      exact Node.ofValue_logStep_eq_ok_iff.2 ⟨_, _, _, rfl, rfl, hnamed, ih⟩
  | task hid hplan _ ih =>
      exact Node.ofValue_map_eq_ok_iff.2 (.inr ⟨_, _, hid, hplan, rfl, ih⟩)

end Value.Denotes

/-- Understanding a value succeeds with a node exactly if the value denotes that node. -/
theorem Node.ofValue_eq_ok_iff
    {value : Value} {node : Node} :
    Node.ofValue value = .ok node ↔ value.Denotes node :=
  ⟨Value.Denotes.of_ofValue, Value.Denotes.ofValue⟩

end Agreement

end TaskTree
