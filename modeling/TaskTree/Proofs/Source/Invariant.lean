import TaskTree.Proofs.Source.Forms

/-!
# What the reader produces

A property of atoms and of new collections holds everywhere in what is read: it
is kept by every token.  In particular symbols and keywords have names that are
read as what they are, and no map has equal keys.

**Results.**
* `ReadInvariant.of_readAll`: a property that every token keeps holds everywhere in every form.
* `Value.readInvariant_spelled`, `Value.readInvariant_distinctKeys`: two such properties.
-/

namespace TaskTree

/-- A property of whatever a token can add: of strings, of what runs of symbol characters stand
for, and of collections. -/
structure ReadInvariant (q : Value → Prop) : Prop where
  string : ∀ text, q (.string text)
  run : ∀ run value, IsRun run → Atom.value run = .ok value → q value
  list : ∀ items, q (.list items)
  vector : ∀ items, q (.vector items)
  map : ∀ entries, q (.map (Entries.ofList entries))

namespace Atom

theorem parts_word
    (run : List Char) :
    (word run).parts = [] := by
  unfold word
  split <;> rfl

theorem number_cases
    {run : List Char} {result : Value}
    (h : number run = .ok result) :
    (∃ i, result = .integer i) ∨ ∃ n : Numeral, result = .float n.nearest := by
  unfold number at h
  dsimp only at h
  split at h
  · cases h
  · split at h
    · split at h
      · next i _ =>
        cases h
        exact .inl ⟨i, rfl⟩
      · cases h
    · cases h
      exact .inr ⟨_, rfl⟩

/-- A run stands for a keyword, a number or a word. -/
theorem value_cases
    {run : List Char} {result : Value}
    (h : value run = .ok result) :
    (∃ name, run = ':' :: name ∧ name ≠ [] ∧ result = .keyword (String.ofList name)) ∨
      ((∃ i, result = .integer i) ∨ ∃ n : Numeral, result = .float n.nearest) ∨
        (run.head? ≠ some ':' ∧ isNumeric run = false ∧ result = word run) := by
  unfold value at h
  split at h
  · cases h
  · next name hname =>
    cases h
    exact .inl ⟨name, rfl, hname, rfl⟩
  · next hcolon =>
    by_cases hnumeric : isNumeric run = true
    · rw [if_pos hnumeric] at h
      exact .inr (.inl (number_cases h))
    · rw [if_neg hnumeric] at h
      cases h
      refine .inr (.inr ⟨fun hhead => ?_, Bool.eq_false_iff.2 hnumeric, rfl⟩)
      obtain ⟨name, rfl⟩ := List.head?_eq_some_iff.1 hhead
      exact hcolon name rfl

/-- A run stands for a value without parts. -/
theorem parts_of_value
    {run : List Char} {result : Value}
    (h : value run = .ok result) :
    result.parts = [] := by
  rcases value_cases h with
    ⟨name, -, -, rfl⟩ | (⟨i, rfl⟩ | ⟨x, rfl⟩) | ⟨-, -, rfl⟩
  · rfl
  · rfl
  · rfl
  · exact parts_word run

end Atom

/-- What the token of a run stands for comes from the run, or from a string literal. -/
theorem Lexeme.atom_of_next
    {c : Char} {s : List Char} {value : Value}
    (h : (Lexeme.next c s).1 = .atom value) :
    (∃ text, value = .string text) ∨
      ∃ run, IsRun run ∧ Atom.value run = .ok value := by
  unfold Lexeme.next at h
  split at h
  case h_7 =>
    split at h
    · cases h
      exact .inl ⟨_, rfl⟩
    · cases h
  case h_8 =>
    split at h
    · next hc =>
      dsimp only at h
      split at h
      · next hvalue =>
        cases h
        refine .inr ⟨_, ⟨List.cons_ne_nil _ _, List.forall_mem_cons.2 ⟨hc, fun d hd => ?_⟩⟩, hvalue⟩
        exact List.all_eq_true.1 List.all_takeWhile d hd
      · cases h
    · cases h
  all_goals cases h

namespace ReadInvariant

variable {q : Value → Prop}

theorem of_next
    (h : ReadInvariant q)
    {c : Char} {s : List Char} {value : Value}
    (hnext : (Lexeme.next c s).1 = .atom value) :
    value.Everywhere q := by
  rcases Lexeme.atom_of_next hnext with ⟨text, rfl⟩ | ⟨run, hrun, hvalue⟩
  · exact .of_parts_eq_nil (h.string text) rfl
  · exact .of_parts_eq_nil (h.run run value hrun hvalue) (Atom.parts_of_value hvalue)

/-- The atoms of a text have the property. -/
theorem of_mem_ofText
    (h : ReadInvariant q)
    {s : List Char} {token : Token} {value : Value}
    (hmem : token ∈ Token.ofText s)
    (hvalue : token.lexeme = .atom value) :
    value.Everywhere q := by
  cases hskip : skipSeparators s with
  | nil =>
      rw [Token.ofText_eq_nil hskip] at hmem
      cases hmem
  | cons c rest =>
      rw [Token.ofText_eq_cons hskip] at hmem
      rcases List.mem_cons.1 hmem with rfl | hmem
      · exact h.of_next hvalue
      · exact h.of_mem_ofText hmem hvalue
termination_by s.length
decreasing_by exact Token.length_rest_lt hskip

end ReadInvariant

/-- Everything that has been read has a property everywhere. -/
structure Progress.Holds (q : Value → Prop) (progress : Progress) : Prop where
  forms : ∀ value ∈ progress.forms, value.Everywhere q
  items : ∀ collection ∈ progress.unclosed, ∀ value ∈ collection.items, value.Everywhere q

namespace Progress.Holds

variable {q : Value → Prop} {progress progress' : Progress}

theorem start :
    Holds q Progress.start :=
  ⟨by simp [Progress.start], by simp [Progress.start]⟩

theorem add
    (h : Holds q progress)
    {value : Value}
    (hvalue : value.Everywhere q) :
    Holds q (progress.add value) := by
  rcases progress with ⟨forms, unclosed⟩
  rcases h with ⟨hforms, hitems⟩
  cases unclosed with
  | nil => exact ⟨List.forall_mem_cons.2 ⟨hvalue, hforms⟩, hitems⟩
  | cons inner outer =>
      obtain ⟨hinner, houter⟩ := List.forall_mem_cons.1 hitems
      exact ⟨hforms, List.forall_mem_cons.2 ⟨List.forall_mem_cons.2 ⟨hvalue, hinner⟩, houter⟩⟩

/-- The keys and values of paired items are among the items. -/
theorem of_pairUp
    {items : List Value}
    (h : ∀ item ∈ items, item.Everywhere q) :
    ∀ e ∈ pairUp items, e.1.Everywhere q ∧ e.2.Everywhere q := by
  fun_induction pairUp items with
  | case1 key value items ih =>
      obtain ⟨hkey, h⟩ := List.forall_mem_cons.1 h
      obtain ⟨hvalue, h⟩ := List.forall_mem_cons.1 h
      exact List.forall_mem_cons.2 ⟨⟨hkey, hvalue⟩, ih h⟩
  | case2 => simp

/-- A collection of such items has the property. -/
theorem close
    (hq : ReadInvariant q)
    {collection : OpenCollection} {value : Value}
    (hitems : ∀ item ∈ collection.items, item.Everywhere q)
    (h : collection.close = .ok value) :
    value.Everywhere q := by
  have hreverse : ∀ item ∈ collection.items.reverse, item.Everywhere q :=
    fun item hitem => hitems item (List.mem_reverse.1 hitem)
  unfold OpenCollection.close at h
  dsimp only at h
  split at h
  · cases h
    exact Value.everywhere_list.2 ⟨hq.list _, hreverse⟩
  · cases h
    exact Value.everywhere_vector.2 ⟨hq.vector _, hreverse⟩
  · split at h
    · cases h
      exact Value.everywhere_map.2
        ⟨hq.map _, Entries.forall_mem_ofList (of_pairUp hreverse)⟩
    · cases h

theorem step
    (hq : ReadInvariant q)
    {token : Token}
    (hatom : ∀ value, token.lexeme = .atom value → value.Everywhere q)
    (h : Holds q progress)
    (hstep : progress.step token = .ok progress') :
    Holds q progress' := by
  rcases progress with ⟨forms, unclosed⟩
  unfold Progress.step at hstep
  split at hstep
  · cases hstep
    exact ⟨h.forms, List.forall_mem_cons.2 ⟨by simp, h.items⟩⟩
  · split at hstep
    · cases hstep
    · next inner outer hunclosed =>
      obtain rfl : unclosed = inner :: outer := hunclosed
      obtain ⟨hinner, houter⟩ := List.forall_mem_cons.1 h.items
      split at hstep
      · split at hstep
        · next hclose =>
          cases hstep
          have hrest : Holds q ⟨forms, outer⟩ := ⟨h.forms, houter⟩
          exact hrest.add (close hq hinner hclose)
        · cases hstep
      · cases hstep
  · next value hvalue =>
    cases hstep
    exact h.add (hatom value hvalue)
  · cases hstep

theorem foldlM
    (hq : ReadInvariant q)
    {tokens : List Token}
    (hatoms : ∀ token ∈ tokens, ∀ value, token.lexeme = .atom value → value.Everywhere q)
    (h : Holds q progress)
    (hsteps : tokens.foldlM Progress.step progress = .ok progress') :
    Holds q progress' := by
  have hread : Ends (fun _ => True) (Holds q) (tokens.foldlM Progress.step progress) := by
    refine .foldlM h fun progress token hprogress htoken => ?_
    exact .of_cases (fun _ => hprogress.step hq (hatoms token htoken)) fun _ _ => trivial
  exact hread.of_eq_ok hsteps

end Progress.Holds

/-- What every token keeps holds everywhere in what is read. -/
theorem ReadInvariant.of_readAll
    {q : Value → Prop}
    (hq : ReadInvariant q)
    {source : String} {values : List Value}
    (h : Value.readAll source = .ok values) :
    ∀ value ∈ values, value.Everywhere q := by
  have hatoms := fun token hmem value =>
    @of_mem_ofText _ hq source.toList token value hmem
  have hholds := Progress.Holds.foldlM hq hatoms .start (Value.readAll_eq_ok_iff.1 h)
  exact fun value hvalue => hholds.forms value (List.mem_reverse.2 hvalue)

namespace Atom

/-- A run that is neither a keyword nor a number nor a reserved word is the name of a symbol. -/
theorem spelled_word
    {run : List Char}
    (hrun : IsRun run)
    (hcolon : run.head? ≠ some ':')
    (hnumeric : isNumeric run = false) :
    (word run).Spelled := by
  unfold word
  split
  · trivial
  · trivial
  · trivial
  · next htrue hfalse hnil =>
    refine ⟨?_, ?_, ?_, ?_, htrue, hfalse, hnil⟩
    all_goals rw [String.toList_ofList]
    · exact hrun
    · exact hcolon
    · unfold isNumeric takeSign at hnumeric
      split at hnumeric
      · rfl
      · rfl
      · exact hnumeric
    · rintro sign rest rfl (rfl | rfl)
      · exact hnumeric
      · exact hnumeric

/-- Symbols and keywords are spelled as the run that stands for them. -/
theorem spelled_of_value
    {run : List Char} {result : Value}
    (hrun : IsRun run)
    (h : value run = .ok result) :
    result.Spelled := by
  rcases value_cases h with
    ⟨name, rfl, hne, rfl⟩ | (⟨i, rfl⟩ | ⟨x, rfl⟩) | ⟨hcolon, hnumeric, rfl⟩
  · have hname : IsRun name :=
      ⟨hne, fun c hc => hrun.2 c (List.mem_cons_of_mem _ hc)⟩
    rwa [← @String.toList_ofList name] at hname
  · trivial
  · trivial
  · exact spelled_word hrun hcolon hnumeric

end Atom

namespace Value

theorem readInvariant_spelled :
    ReadInvariant Spelled where
  string _ := trivial
  run _ _ hrun hvalue := Atom.spelled_of_value hrun hvalue
  list _ := trivial
  vector _ := trivial
  map _ := trivial

theorem readInvariant_distinctKeys :
    ReadInvariant DistinctKeys where
  string _ := trivial
  run _ _ _ hvalue := distinctKeys_of_parts_eq_nil (Atom.parts_of_value hvalue)
  list _ := trivial
  vector _ := trivial
  map entries := Entries.distinct_ofList entries

end Value

end TaskTree
