import TaskTree.Program
import TaskTree.Proofs.Node.Acceptable
import TaskTree.Proofs.Node.WellFormed
import TaskTree.Proofs.Source.Invariant
import TaskTree.Proofs.Value.Readable

/-!
# Programs written as source text

A program that was read from a source text is written as a value again.  Its
names are still spelled as what they are and its maps have no equal keys, so it
is read back from its text as long as its numbers are finite.  A numeral that is
too large is read as an infinity, and an infinity is written as a word: such a
program does not come back.

**Results.**
* `Value.Denotes.everywhere_toValue`: what holds everywhere in a value holds in its program.
* `Node.parse_written_iff`: the programs that are read back from their own text.
-/

namespace TaskTree

/-- A property that holds of whatever the value of a program is put together from. -/
structure RebuildInvariant (q : Value → Prop) : Prop where
  list : ∀ items, q (.list items)
  vector : ∀ items, q (.vector items)
  task : ∀ details plan, q (.map (TaskDetails.entries details plan))

namespace Entries

theorem keyword?_mem
    {entries : Entries} {name : String} {value : Value}
    (h : entries.keyword? name = some value) :
    (.keyword name, value) ∈ entries := by
  obtain ⟨before, after, rfl, -⟩ := Entries.keyword?_eq_some_iff.1 h
  simp

theorem mem_optional
    {key : String} {value : Option Value} {e : Value × Value}
    (h : e ∈ Entries.optional key value) :
    ∃ v, value = some v ∧ e = (.keyword key, v) := by
  cases value with
  | none => cases h
  | some v => exact ⟨v, rfl, List.mem_singleton.1 h⟩

theorem keys_optional_sublist
    (key : String) (value : Option Value) :
    (keys (Entries.optional key value)).Sublist [.keyword key] := by
  cases value with
  | none => exact List.nil_sublist _
  | some v => exact List.Sublist.refl _

end Entries

/-- An entry of a task's map holds the plan or what is known of the task. -/
theorem TaskDetails.mem_entries
    {entries : Entries} {plan : Value} {e : Value × Value}
    (h : e ∈ (TaskDetails.ofEntries entries).entries plan) :
    e = (.keyword "plan", plan) ∨
      ∃ name v, entries.keyword? name = some v ∧ e = (.keyword name, v) := by
  simp only [TaskDetails.entries, List.mem_append, List.mem_singleton] at h
  rcases h with ((((h | h) | h) | h) | h) | h
  case inl.inr => exact .inl h
  all_goals
    obtain ⟨v, hv, rfl⟩ := Entries.mem_optional h
    exact .inr ⟨_, v, hv, rfl⟩

/-- The keys of a task's map are different keywords. -/
theorem TaskDetails.distinct_entries
    (details : TaskDetails) (plan : Value) :
    Entries.Distinct (details.entries plan) := by
  have hall : List.Pairwise (fun earlier later : Value => (earlier == later) = false)
      [.keyword "id", .keyword "source", .keyword "natural-language", .keyword "intent",
        .keyword "plan", .keyword "execution-log"] := by
    simp [BEq.beq, Value.equals]
  refine hall.sublist ?_
  simp only [TaskDetails.entries, Entries.keys, List.map_append]
  have hkeys := Entries.keys_optional_sublist
  exact (((((hkeys _ _).append (hkeys _ _)).append (hkeys _ _)).append (hkeys _ _)).append
    (List.Sublist.refl [Value.keyword "plan"])).append (hkeys _ _)

namespace Value

section Rebuild

variable {q : Value → Prop}

/-- The items of a form that a special form is applied to. -/
theorem everywhere_applied
    {form : SpecialForm} {args : List Value} :
    (form.applied args).Everywhere q ↔
      q (form.applied args) ∧ q (.symbol form.name) ∧ ∀ arg ∈ args, arg.Everywhere q := by
  rw [SpecialForm.applied, everywhere_list, List.forall_mem_cons]
  refine and_congr_right fun _ => and_congr_left fun _ => ?_
  exact ⟨fun h => (everywhere_iff.1 h).1, fun here => .of_parts_eq_nil here rfl⟩

section Parts

variable {es : List (Value × Node)} {bindings : List (Symbol × Value × Node)}

theorem everywhere_toValues
    (ih : ∀ e ∈ es, e.1.Everywhere q → e.2.toValue.Everywhere q)
    (h : ∀ v ∈ es.map Prod.fst, v.Everywhere q) :
    ∀ v ∈ Node.toValues (es.map Prod.snd), v.Everywhere q := by
  rw [Node.toValues_eq_map, List.map_map]
  exact List.forall_mem_map.2 fun e he => ih e he (List.forall_mem_map.1 h e he)

theorem everywhere_flatItems :
    (∀ v ∈ flatItems bindings, v.Everywhere q) ↔
      ∀ b ∈ bindings, b.1.toValue.Everywhere q ∧ b.2.1.Everywhere q := by
  simp only [flatItems, List.forall_mem_flatMap, List.forall_mem_cons, List.not_mem_nil,
    false_imp_iff, implies_true, and_true]

theorem everywhere_pairedItems
    (hq : RebuildInvariant q) :
    (∀ v ∈ pairedItems bindings, v.Everywhere q) ↔
      ∀ b ∈ bindings, b.1.toValue.Everywhere q ∧ b.2.1.Everywhere q := by
  simp only [pairedItems, List.forall_mem_map, everywhere_vector, hq.vector, true_and,
    List.forall_mem_cons, List.not_mem_nil, false_imp_iff, implies_true, and_true]

theorem everywhere_withValues
    (ih : ∀ b ∈ bindings, b.2.1.Everywhere q → b.2.2.toValue.Everywhere q)
    (h : ∀ b ∈ bindings, b.1.toValue.Everywhere q ∧ b.2.1.Everywhere q) :
    ∀ b ∈ Node.withValues (Node.boundNodes bindings),
      b.1.toValue.Everywhere q ∧ b.2.1.Everywhere q := by
  rw [Node.forall_mem_withValues, Node.boundNodes]
  exact List.forall_mem_map.2 fun b hb => ⟨(h b hb).1, ih b hb (h b hb).2⟩

end Parts

/-- What holds everywhere in a value holds everywhere in what it is understood as. -/
theorem Denotes.everywhere_toValue
    (hq : RebuildInvariant q)
    {value : Value} {node : Node}
    (h : value.Denotes node)
    (hvalue : value.Everywhere q) :
    node.toValue.Everywhere q := by
  induction h with
  | literal hself => exact hvalue
  | symbol hnamed => exact hvalue
  | @call head args hhead h ih =>
      rw [Node.toValue, everywhere_list]
      exact ⟨hq.list _, @everywhere_toValues _ (head :: args) ih (everywhere_list.1 hvalue).2⟩
  | sequence _ ih =>
      obtain ⟨-, hname, hargs⟩ := everywhere_applied.1 hvalue
      rw [Node.toValue, everywhere_applied]
      exact ⟨hq.list _, hname, everywhere_toValues ih hargs⟩
  | definition hnamed _ ih =>
      obtain ⟨-, hname, hargs⟩ := everywhere_applied.1 hvalue
      rw [Node.toValue, everywhere_applied]
      simp only [List.forall_mem_cons] at hargs ⊢
      exact ⟨hq.list _, hname, hargs.1, ih hargs.2.1, hargs.2.2⟩
  | letBinding hnamed _ _ ihBindings ihBody =>
      obtain ⟨-, hname, hargs⟩ := everywhere_applied.1 hvalue
      obtain ⟨hvector, hbody⟩ := List.forall_mem_cons.1 hargs
      have hbindings := everywhere_withValues ihBindings
        (everywhere_flatItems.1 (everywhere_vector.1 hvector).2)
      rw [← everywhere_flatItems, ← Node.flatBindings_eq] at hbindings
      rw [Node.toValue, everywhere_applied, List.forall_mem_cons, everywhere_vector]
      exact ⟨hq.list _, hname, ⟨hq.vector _, hbindings⟩, everywhere_toValues ihBody hbody⟩
  | conditional _ _ _ ihc iht ihe =>
      obtain ⟨-, hname, hargs⟩ := everywhere_applied.1 hvalue
      rw [Node.toValue, everywhere_applied]
      simp only [List.forall_mem_cons] at hargs ⊢
      exact ⟨hq.list _, hname, ihc hargs.1, iht hargs.2.1, ihe hargs.2.2.1, hargs.2.2.2⟩
  | function hnamed _ ih =>
      obtain ⟨-, hname, hargs⟩ := everywhere_applied.1 hvalue
      obtain ⟨hparams, hbody⟩ := List.forall_mem_cons.1 hargs
      rw [Node.toValue, everywhere_applied, List.forall_mem_cons]
      exact ⟨hq.list _, hname, hparams, everywhere_toValues ih hbody⟩
  | parallel hnamed _ ih =>
      obtain ⟨-, hname, hargs⟩ := everywhere_applied.1 hvalue
      obtain ⟨hvector, -⟩ := List.forall_mem_cons.1 hargs
      have hbindings := everywhere_withValues ih
        ((everywhere_pairedItems hq).1 (everywhere_vector.1 hvector).2)
      rw [← everywhere_pairedItems hq, ← Node.pairedBindings_eq] at hbindings
      rw [Node.toValue, everywhere_applied, List.forall_mem_cons, everywhere_vector]
      exact ⟨hq.list _, hname, ⟨hq.vector _, hbindings⟩, by simp⟩
  | join hnamed => exact hvalue
  | logStep hnamed _ ih =>
      obtain ⟨-, hname, hargs⟩ := everywhere_applied.1 hvalue
      rw [Node.toValue, everywhere_applied]
      simp only [List.forall_mem_cons] at hargs ⊢
      exact ⟨hq.list _, hname, hargs.1, hargs.2.1, ih hargs.2.2.1, hargs.2.2.2⟩
  | @task entries plan node hid hplan _ ih =>
      have hentries := (everywhere_map.1 hvalue).2
      have hfound : ∀ {name v}, entries.keyword? name = some v →
          Everywhere q (.keyword name) ∧ v.Everywhere q :=
        fun h => hentries _ (Entries.keyword?_mem h)
      rw [Node.toValue, everywhere_map]
      refine ⟨hq.task _ _, fun e he => ?_⟩
      rcases TaskDetails.mem_entries he with rfl | ⟨name, v, hv, rfl⟩
      · exact ⟨(hfound hplan).1, ih (hfound hplan).2⟩
      · exact hfound hv

end Rebuild

theorem rebuildInvariant_spelled :
    RebuildInvariant Spelled where
  list _ := trivial
  vector _ := trivial
  task _ _ := trivial

theorem rebuildInvariant_finiteNumber :
    RebuildInvariant FiniteNumber where
  list _ := trivial
  vector _ := trivial
  task _ _ := trivial

theorem rebuildInvariant_distinctKeys :
    RebuildInvariant DistinctKeys where
  list _ := trivial
  vector _ := trivial
  task := TaskDetails.distinct_entries

end Value

namespace Node

theorem parse_eq_ok_iff
    {source : String} {node : Node} :
    parse source = .ok node ↔
      ∃ value, Value.read source = .ok value ∧ value.Denotes node := by
  constructor
  · intro h
    obtain ⟨value, hread, h⟩ := ok_of_bind_eq_ok h
    rw [mapError_eq_ok_iff] at hread h
    exact ⟨value, hread, ofValue_eq_ok_iff.1 h⟩
  · rintro ⟨value, hread, h⟩
    rw [parse, mapError_eq_ok_iff.2 hread, ok_bind_eq, mapError_eq_ok_iff]
    exact ofValue_eq_ok_iff.2 h

/-- A program that was read has names that are spelled as what they are, and distinct keys. -/
theorem everywhere_of_parse
    {source : String} {node : Node}
    (h : parse source = .ok node) :
    node.toValue.Everywhere Value.Spelled ∧ node.toValue.Everywhere Value.DistinctKeys := by
  obtain ⟨value, hread, hdenotes⟩ := parse_eq_ok_iff.1 h
  have hall := Value.read_eq_ok_iff.1 hread
  have hspelled := Value.readInvariant_spelled.of_readAll hall value List.mem_cons_self
  have hdistinct := Value.readInvariant_distinctKeys.of_readAll hall value List.mem_cons_self
  exact ⟨hdenotes.everywhere_toValue Value.rebuildInvariant_spelled hspelled,
    hdenotes.everywhere_toValue Value.rebuildInvariant_distinctKeys hdistinct⟩

/-- A program that was read is read back from its own text exactly when all numbers that are
written are finite. -/
theorem parse_written_iff
    {source : String} {node : Node}
    (h : parse source = .ok node) :
    parse node.toValue.written = .ok node ↔ node.toValue.Everywhere Value.FiniteNumber := by
  obtain ⟨value, -, hdenotes⟩ := parse_eq_ok_iff.1 h
  obtain ⟨hspelled, hdistinct⟩ := everywhere_of_parse h
  have hread := Value.read_written_of_spelled hspelled
  constructor
  · intro hback
    obtain ⟨value', hread', hdenotes'⟩ := parse_eq_ok_iff.1 hback
    obtain rfl : node.toValue.respelled = value' := by
      rw [hread] at hread'
      cases hread'
      rfl
    exact hdenotes'.everywhere_toValue Value.rebuildInvariant_finiteNumber
      (Value.everywhere_respelled _)
  · intro hfinite
    rw [Value.respelled_eq (Value.everywhere_and.2 ⟨hfinite, hdistinct⟩)] at hread
    exact parse_eq_ok_iff.2 ⟨node.toValue, hread, hdenotes.wellFormed.denotes_toValue⟩

/-- A numeral beyond the range of the format is read as an infinity and does not come back. -/
theorem parse_written_of_overflow :
    parse "1e400" = .ok (.literal (.float Numeral.infinity)) ∧
      parse (Value.written (toValue (.literal (.float Numeral.infinity))))
        ≠ .ok (.literal (.float Numeral.infinity)) := by
  have hread : Value.read "1e400" = .ok (.float Numeral.infinity) := by
    have hrun : Progress.start.read ("1e400".toList ++ [])
        = (Progress.start.add (.float Numeral.infinity)).read [] :=
      Progress.read_run (by decide) endsRun_nil rfl
    rw [Value.read_eq_ok_iff, Value.readAll_eq_ok_iff]
    rwa [List.append_nil, Progress.read_nil] at hrun
  have hparse : parse "1e400" = .ok (.literal (.float Numeral.infinity)) :=
    parse_eq_ok_iff.2 ⟨_, hread, .literal (.float _)⟩
  refine ⟨hparse, fun hback => ?_⟩
  obtain ⟨hhere, -⟩ := (parse_written_iff hparse).1 hback
  have hfinite : Numeral.infinity.isFinite = true := hhere
  exact absurd hfinite (by decide)

end Node

end TaskTree
