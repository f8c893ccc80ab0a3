import TaskTree.Proofs.Node.Denotes

/-!
# The grammar of programs

`Value.Acceptable` is the grammar of the values that are programs, written out
rule by rule: what an atom, a map, a call and each special form may consist of.
The nodes that a value may denote do not occur in it.

**Results.**
* `Entries.keyword?_eq_some_iff`: looking up a keyword finds the first entry
  under it.
* `Node.exists_ofValue_eq_ok_iff`: a value can be understood exactly if it is
  acceptable.
-/

namespace TaskTree

/-- The names of the special forms. -/
def Value.reservedNames : List String :=
  ["def", "let", "if", "fn", "do", "parallel", "join", "log-step"]

/-- Some entry stands under the keyword of the given name. -/
def Entries.Mentions (entries : Entries) (name : String) : Prop :=
  ∃ value, (Value.keyword name, value) ∈ entries

/-- A value that is a program. -/
inductive Value.Acceptable : Value → Prop
  | nil : Acceptable .nil
  | boolean (flag : Bool) : Acceptable (.boolean flag)
  | integer (number : Int64) : Acceptable (.integer number)
  | float (number : Float) : Acceptable (.float number)
  | string (text : String) : Acceptable (.string text)
  | keyword (name : String) : Acceptable (.keyword name)
  | vector (items : List Value) : Acceptable (.vector items)
  | symbol
      {s : Symbol}
      (hnamed : s.Named) :
      Acceptable s.toValue
  | plainMap
      {entries : Entries}
      (hplain : ¬ (entries.Mentions "id" ∧ entries.Mentions "plan")) :
      Acceptable (.map entries)
  | taskMap
      {before after : Entries} {plan : Value}
      (hid : Entries.Mentions (before ++ (.keyword "plan", plan) :: after) "id")
      (hfirst : ¬ before.Mentions "plan")
      (hplan : Acceptable plan) :
      Acceptable (.map (before ++ (.keyword "plan", plan) :: after))
  | call
      {head : Value} {args : List Value}
      (hhead : ∀ name ∈ reservedNames, head ≠ .symbol name)
      (hitems : ∀ item ∈ head :: args, Acceptable item) :
      Acceptable (.list (head :: args))
  | definition
      {target : Symbol} {value : Value}
      (hnamed : target.Named)
      (hvalue : Acceptable value) :
      Acceptable (.list [.symbol "def", target.toValue, value])
  | letBinding
      {bindings : List (Symbol × Value)} {body : List Value}
      (hnamed : ∀ b ∈ bindings, b.1.Named)
      (hvalues : ∀ b ∈ bindings, Acceptable b.2)
      (hbody : ∀ item ∈ body, Acceptable item) :
      Acceptable
        (.list
          (.symbol "let" :: .vector (bindings.flatMap fun b => [b.1.toValue, b.2]) :: body))
  | conditional
      {condition thenBranch elseBranch : Value}
      (hcondition : Acceptable condition)
      (hthen : Acceptable thenBranch)
      (helse : Acceptable elseBranch) :
      Acceptable (.list [.symbol "if", condition, thenBranch, elseBranch])
  | function
      {params : List Symbol} {body : List Value}
      (hnamed : ∀ p ∈ params, p.Named)
      (hbody : ∀ item ∈ body, Acceptable item) :
      Acceptable (.list (.symbol "fn" :: .vector (params.map Symbol.toValue) :: body))
  | sequence
      {body : List Value}
      (hbody : ∀ item ∈ body, Acceptable item) :
      Acceptable (.list (.symbol "do" :: body))
  | parallel
      {bindings : List (Symbol × Value)}
      (hnamed : ∀ b ∈ bindings, b.1.Named)
      (hvalues : ∀ b ∈ bindings, Acceptable b.2) :
      Acceptable
        (.list
          [.symbol "parallel", .vector (bindings.map fun b => .vector [b.1.toValue, b.2])])
  | join
      {ids : List Symbol}
      (hnamed : ∀ id ∈ ids, id.Named) :
      Acceptable (.list (.symbol "join" :: ids.map Symbol.toValue))
  | logStep
      {id : Symbol} {expr : Value}
      (hnamed : id.Named)
      (hexpr : Acceptable expr) :
      Acceptable (.list [.symbol "log-step", .keyword "id", id.toValue, expr])

section LookUp

/-- Looking up a keyword finds the first entry under it. -/
theorem Entries.keyword?_eq_some_iff
    {entries : Entries} {name : String} {value : Value} :
    entries.keyword? name = some value ↔
      ∃ before after, entries = before ++ (.keyword name, value) :: after ∧
        ¬ Entries.Mentions before name := by
  induction entries with
  | nil => simp [Entries.keyword?]
  | cons entry entries ih =>
      rcases entry with ⟨key, value'⟩
      simp only [Entries.keyword?]
      by_cases hkey : key.isKeyword name = true
      · rw [if_pos hkey]
        obtain rfl := Value.isKeyword_iff.1 hkey
        constructor
        · rintro ⟨⟩
          exact ⟨[], entries, rfl, by simp [Entries.Mentions]⟩
        · rintro ⟨before, after, heq, hfirst⟩
          cases before with
          | nil =>
              cases heq
              rfl
          | cons e before =>
              cases heq
              exact absurd ⟨value', List.mem_cons_self⟩ hfirst
      · rw [if_neg hkey, ih]
        constructor
        · rintro ⟨before, after, rfl, hfirst⟩
          refine ⟨(key, value') :: before, after, rfl, ?_⟩
          rintro ⟨v, hv⟩
          rcases List.mem_cons.1 hv with heq | hv
          · cases heq
            exact hkey (Value.isKeyword_iff.2 rfl)
          · exact hfirst ⟨v, hv⟩
        · rintro ⟨before, after, heq, hfirst⟩
          cases before with
          | nil =>
              cases heq
              exact absurd (Value.isKeyword_iff.2 rfl) hkey
          | cons e before =>
              cases heq
              refine ⟨before, after, rfl, ?_⟩
              rintro ⟨v, hv⟩
              exact hfirst ⟨v, List.mem_cons_of_mem _ hv⟩

theorem Entries.hasKeyword_iff
    {entries : Entries} {name : String} :
    entries.hasKeyword name = true ↔ entries.Mentions name := by
  induction entries with
  | nil => simp [Entries.hasKeyword, Entries.keyword?, Entries.Mentions]
  | cons entry entries ih =>
      rcases entry with ⟨key, value⟩
      simp only [Entries.hasKeyword, Entries.keyword?, Entries.Mentions, List.mem_cons,
        Prod.mk.injEq, exists_or, exists_and_left] at ih ⊢
      by_cases hkey : key.isKeyword name = true
      · simp only [hkey, if_true, Option.isSome_some, true_iff]
        exact .inl ⟨(Value.isKeyword_iff.1 hkey).symm, value, rfl⟩
      · have hne : Value.keyword name ≠ key := fun h => hkey (Value.isKeyword_iff.2 h.symm)
        simp [hkey, ih, hne]

theorem Entries.isTask_eq_false_iff
    {entries : Entries} :
    entries.isTask = false ↔ ¬ (entries.Mentions "id" ∧ entries.Mentions "plan") := by
  rw [← Entries.hasKeyword_iff, ← Entries.hasKeyword_iff, ← Bool.and_eq_true, Entries.isTask,
    Bool.not_eq_true]

theorem Value.unreserved_iff
    {value : Value} :
    value.Unreserved ↔ ∀ name ∈ reservedNames, value ≠ .symbol name := by
  have hnames : reservedNames = SpecialForm.all.map SpecialForm.name := by rfl
  rw [hnames, List.forall_mem_map]
  constructor
  · intro h form _
    exact h form
  · intro h form
    exact h form (by cases form <;> decide)

end LookUp

section Acceptance

/-- Each binding without the node of its expression. -/
def Value.bindingsOf (bindings : List (Symbol × Value × Node)) : List (Symbol × Value) :=
  bindings.map fun b => (b.1, b.2.1)

theorem Value.flatItems_eq
    (bindings : List (Symbol × Value × Node)) :
    flatItems bindings = (bindingsOf bindings).flatMap fun b => [b.1.toValue, b.2] := by
  simp [flatItems, bindingsOf, List.flatMap_map]

theorem Value.pairedItems_eq
    (bindings : List (Symbol × Value × Node)) :
    pairedItems bindings = (bindingsOf bindings).map fun b => .vector [b.1.toValue, b.2] := by
  simp [pairedItems, bindingsOf]

/-- Whatever denotes a node is acceptable. -/
theorem Value.Denotes.acceptable
    {value : Value} {node : Node}
    (h : value.Denotes node) :
    value.Acceptable := by
  induction h with
  | literal hself =>
      cases hself with
      | nil => exact .nil
      | boolean flag => exact .boolean flag
      | integer number => exact .integer number
      | float number => exact .float number
      | string text => exact .string text
      | keyword name => exact .keyword name
      | vector items => exact .vector items
      | map htask => exact .plainMap (Entries.isTask_eq_false_iff.1 htask)
  | symbol hnamed => exact .symbol hnamed
  | call hhead _ ih =>
      obtain ⟨ihHead, ihArgs⟩ := List.forall_mem_cons.1 ih
      exact .call (Value.unreserved_iff.1 hhead)
        (List.forall_mem_cons.2 ⟨ihHead, List.forall_mem_map.2 ihArgs⟩)
  | sequence _ ih => exact .sequence (List.forall_mem_map.2 ih)
  | definition hnamed _ ih => exact .definition hnamed ih
  | letBinding hnamed _ _ ihBindings ihBody =>
      rw [Value.flatItems_eq]
      exact .letBinding (List.forall_mem_map.2 hnamed) (List.forall_mem_map.2 ihBindings)
        (List.forall_mem_map.2 ihBody)
  | conditional _ _ _ ihc iht ihe => exact .conditional ihc iht ihe
  | function hnamed _ ih => exact .function hnamed (List.forall_mem_map.2 ih)
  | parallel hnamed _ ih =>
      rw [Value.pairedItems_eq]
      exact .parallel (List.forall_mem_map.2 hnamed) (List.forall_mem_map.2 ih)
  | join hnamed => exact .join hnamed
  | logStep hnamed _ ih => exact .logStep hnamed ih
  | task hid hplan _ ih =>
      obtain ⟨before, after, rfl, hfirst⟩ := Entries.keyword?_eq_some_iff.1 hplan
      exact .taskMap (Entries.hasKeyword_iff.1 hid) hfirst ih

/-- Parts that denote some node each are the first components of a sequence of pairs. -/
theorem Value.exists_pairs
    {values : List Value}
    (h : ∀ value ∈ values, ∃ node, value.Denotes node) :
    ∃ es : List (Value × Node), values = es.map Prod.fst ∧ ∀ e ∈ es, e.1.Denotes e.2 := by
  induction values with
  | nil => exact ⟨[], rfl, by simp⟩
  | cons value values ih =>
      obtain ⟨⟨node, hnode⟩, hvalues⟩ := List.forall_mem_cons.1 h
      obtain ⟨es, rfl, hes⟩ := ih hvalues
      exact ⟨(value, node) :: es, rfl, List.forall_mem_cons.2 ⟨hnode, hes⟩⟩

theorem Value.exists_triples
    {bindings : List (Symbol × Value)}
    (hnamed : ∀ b ∈ bindings, b.1.Named)
    (h : ∀ b ∈ bindings, ∃ node, b.2.Denotes node) :
    ∃ triples : List (Symbol × Value × Node), bindings = bindingsOf triples ∧
      (∀ b ∈ triples, b.1.Named) ∧ ∀ b ∈ triples, b.2.1.Denotes b.2.2 := by
  induction bindings with
  | nil => exact ⟨[], rfl, by simp, by simp⟩
  | cons b bindings ih =>
      obtain ⟨hname, hnamed⟩ := List.forall_mem_cons.1 hnamed
      obtain ⟨⟨node, hnode⟩, hbindings⟩ := List.forall_mem_cons.1 h
      obtain ⟨triples, rfl, htriples, hdenotes⟩ := ih hnamed hbindings
      exact ⟨(b.1, b.2, node) :: triples, rfl, List.forall_mem_cons.2 ⟨hname, htriples⟩,
        List.forall_mem_cons.2 ⟨hnode, hdenotes⟩⟩

/-- Whatever is acceptable denotes some node. -/
theorem Value.Acceptable.exists_denotes
    {value : Value}
    (h : value.Acceptable) :
    ∃ node, value.Denotes node := by
  induction h with
  | nil => exact ⟨_, .literal .nil⟩
  | boolean flag => exact ⟨_, .literal (.boolean flag)⟩
  | integer number => exact ⟨_, .literal (.integer number)⟩
  | float number => exact ⟨_, .literal (.float number)⟩
  | string text => exact ⟨_, .literal (.string text)⟩
  | keyword name => exact ⟨_, .literal (.keyword name)⟩
  | vector items => exact ⟨_, .literal (.vector items)⟩
  | symbol hnamed => exact ⟨_, .symbol hnamed⟩
  | plainMap hplain => exact ⟨_, .literal (.map (Entries.isTask_eq_false_iff.2 hplain))⟩
  | taskMap hid hfirst _ ih =>
      rcases ih with ⟨node, hnode⟩
      exact ⟨_, .task (Entries.hasKeyword_iff.2 hid)
        (Entries.keyword?_eq_some_iff.2 ⟨_, _, rfl, hfirst⟩) hnode⟩
  | @call head args hhead _ ih =>
      obtain ⟨⟨headNode, hheadNode⟩, ihArgs⟩ := List.forall_mem_cons.1 ih
      obtain ⟨es, rfl, hes⟩ := Value.exists_pairs ihArgs
      exact ⟨_, @Value.Denotes.call (head, headNode) es (Value.unreserved_iff.2 hhead)
        (List.forall_mem_cons.2 ⟨hheadNode, hes⟩)⟩
  | definition hnamed _ ih =>
      rcases ih with ⟨node, hnode⟩
      exact ⟨_, .definition hnamed hnode⟩
  | letBinding hnamed _ _ ihBindings ihBody =>
      obtain ⟨triples, rfl, hnamed, htriples⟩ := Value.exists_triples hnamed ihBindings
      obtain ⟨es, rfl, hes⟩ := Value.exists_pairs ihBody
      rw [← Value.flatItems_eq]
      exact ⟨_, .letBinding hnamed htriples hes⟩
  | conditional _ _ _ ihc iht ihe =>
      rcases ihc with ⟨c, hc⟩
      rcases iht with ⟨t, ht⟩
      rcases ihe with ⟨e, he⟩
      exact ⟨_, .conditional hc ht he⟩
  | function hnamed _ ih =>
      obtain ⟨es, rfl, hes⟩ := Value.exists_pairs ih
      exact ⟨_, .function hnamed hes⟩
  | sequence _ ih =>
      obtain ⟨es, rfl, hes⟩ := Value.exists_pairs ih
      exact ⟨_, .sequence hes⟩
  | parallel hnamed _ ih =>
      obtain ⟨triples, rfl, hnamed, htriples⟩ := Value.exists_triples hnamed ih
      rw [← Value.pairedItems_eq]
      exact ⟨_, .parallel hnamed htriples⟩
  | join hnamed => exact ⟨_, .join hnamed⟩
  | logStep hnamed _ ih =>
      rcases ih with ⟨node, hnode⟩
      exact ⟨_, .logStep hnamed hnode⟩

/-- A value can be understood as a program exactly if it is acceptable. -/
theorem Node.exists_ofValue_eq_ok_iff
    (value : Value) :
    (∃ node, Node.ofValue value = .ok node) ↔ value.Acceptable := by
  constructor
  · rintro ⟨node, h⟩
    exact (Node.ofValue_eq_ok_iff.1 h).acceptable
  · intro h
    obtain ⟨node, hnode⟩ := h.exists_denotes
    exact ⟨node, Node.ofValue_eq_ok_iff.2 hnode⟩

end Acceptance

end TaskTree
