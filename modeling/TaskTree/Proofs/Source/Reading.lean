import TaskTree.Proofs.Decimal.Numeral
import TaskTree.Proofs.Decimal.ReadBack
import TaskTree.Proofs.Value.Parts
import TaskTree.Source.Forms
import TaskTree.Value.Written

/-!
# Reading what was written

A value whose names can be told from each other and from everything else is
written so that the reader adds the value again, whatever follows.  Two things
change on the way: infinities and the number that is none are written as words,
so they come back as symbols, and a map is filled again one entry at a time.
`Value.respelled` is the value after these changes.

**Results.**
* `Progress.read_chars`: reading the text of a value adds the value as it is respelled.
* `Value.respelled_eq`: a value with finite numbers and distinct keys is not changed.
-/

namespace TaskTree

/-- The name of a symbol that is read as this symbol: a run that is no keyword, no number and
none of the three reserved words. -/
structure IsSymbolName (name : String) : Prop where
  run : IsRun name.toList
  colon : name.toList.head? ≠ some ':'
  digit : startsWithDigit name.toList = false
  signed : ∀ sign rest, name.toList = sign :: rest → sign = '+' ∨ sign = '-' →
    startsWithDigit rest = false
  reserved : name ≠ "true" ∧ name ≠ "false" ∧ name ≠ "nil"

namespace Atom

theorem isNumeric_eq_false
    {name : String}
    (h : IsSymbolName name) :
    isNumeric name.toList = false := by
  unfold isNumeric takeSign
  split
  · next s hs => exact h.signed '-' s hs (.inr rfl)
  · next s hs => exact h.signed '+' s hs (.inl rfl)
  · exact h.digit

/-- The name of a symbol is read as the symbol. -/
theorem value_symbolName
    {name : String}
    (h : IsSymbolName name) :
    value name.toList = .ok (.symbol name) := by
  have hword : word name.toList = .symbol name := by
    unfold word
    rw [String.ofList_toList]
    split
    · exact absurd rfl h.reserved.1
    · exact absurd rfl h.reserved.2.1
    · exact absurd rfl h.reserved.2.2
    · rfl
  unfold value
  split
  · next hs => exact absurd (by rw [hs]; rfl) h.colon
  · next hs => exact absurd (by rw [hs]; rfl) h.colon
  · rw [isNumeric_eq_false h, hword]
    rfl

/-- A colon and a run are read as a keyword. -/
theorem value_keyword
    {name : String}
    (h : IsRun name.toList) :
    value (':' :: name.toList) = .ok (.keyword name) := by
  obtain ⟨c, chars, hchars⟩ := List.exists_cons_of_ne_nil h.1
  rw [← String.ofList_toList (s := name), String.toList_ofList, hchars]
  rfl

end Atom

namespace Value

/-- Symbols and keywords have names that are read as what they are. -/
def Spelled : Value → Prop
  | .symbol name => IsSymbolName name
  | .keyword name => IsRun name.toList
  | _ => True

/-- A floating-point number is neither infinite nor the number that is none. -/
def FiniteNumber : Value → Prop
  | .float number => number.isFinite = true
  | _ => True

/-- No two keys of a map are equal. -/
def DistinctKeys : Value → Prop
  | .map entries => Entries.Distinct entries
  | _ => True

theorem distinctKeys_of_parts_eq_nil
    {value : Value}
    (h : value.parts = []) :
    value.DistinctKeys := by
  cases value with
  | map entries =>
      cases entries with
      | nil => exact List.Pairwise.nil
      | cons e entries => cases h
  | _ => trivial

mutual

/-- The value that is read where a value was written. -/
def respelled : Value → Value
  | .float number =>
      if number.isFinite then .float number else .symbol (String.ofList (floatText number))
  | .list items => .list (respelledItems items)
  | .vector items => .vector (respelledItems items)
  | .map entries => .map (Entries.ofList (respelledEntries entries))
  | value => value

/-- Every item, respelled. -/
def respelledItems : List Value → List Value
  | [] => []
  | item :: items => item.respelled :: respelledItems items

/-- Every key and every value, respelled. -/
def respelledEntries : List (Value × Value) → List (Value × Value)
  | [] => []
  | (key, value) :: entries => (key.respelled, value.respelled) :: respelledEntries entries

end

theorem respelledItems_eq_map
    (items : List Value) :
    respelledItems items = items.map respelled := by
  induction items with
  | nil => rfl
  | cons item items ih => rw [respelledItems, ih, List.map_cons]

theorem respelledEntries_eq_map
    (entries : List (Value × Value)) :
    respelledEntries entries = entries.map fun e => (e.1.respelled, e.2.respelled) := by
  induction entries with
  | nil => rfl
  | cons e entries ih => rw [respelledEntries, ih, List.map_cons]

/-- Values with finite numbers and distinct keys are read as they were written. -/
theorem respelled_eq
    {value : Value}
    (h : value.Everywhere fun v => v.FiniteNumber ∧ v.DistinctKeys) :
    value.respelled = value := by
  induction h with
  | @intro value here parts ih =>
      cases value with
      | float number =>
          have hfinite : number.isFinite = true := here.1
          rw [respelled, if_pos hfinite]
      | list items =>
          have hitems : items.map respelled = items :=
            (List.map_congr_left ih).trans (List.map_id' items)
          rw [respelled, respelledItems_eq_map, hitems]
      | vector items =>
          have hitems : items.map respelled = items :=
            (List.map_congr_left ih).trans (List.map_id' items)
          rw [respelled, respelledItems_eq_map, hitems]
      | map entries =>
          have hentry : ∀ e ∈ entries, (e.1.respelled, e.2.respelled) = e := by
            intro e he
            obtain ⟨hkey, hvalue⟩ := forall_mem_parts_map.1 ih e he
            rw [hkey, hvalue]
          have hdistinct : Entries.Distinct entries := here.2
          rw [respelled, respelledEntries_eq_map, List.map_congr_left hentry, List.map_id',
            hdistinct.ofList_eq]
      | _ => rfl

/-- What is read where a value was written holds finite numbers only. -/
theorem everywhere_respelled
    (value : Value) :
    value.respelled.Everywhere FiniteNumber := by
  induction value using induction_parts with
  | step value ih =>
      cases value with
      | float number =>
          rw [respelled]
          split
          · next hfinite => exact .of_parts_eq_nil hfinite rfl
          · exact .of_parts_eq_nil trivial rfl
      | list items =>
          rw [respelled, respelledItems_eq_map, everywhere_list]
          exact ⟨trivial, List.forall_mem_map.2 ih⟩
      | vector items =>
          rw [respelled, respelledItems_eq_map, everywhere_vector]
          exact ⟨trivial, List.forall_mem_map.2 ih⟩
      | map entries =>
          rw [respelled, respelledEntries_eq_map, everywhere_map]
          exact ⟨trivial, Entries.forall_mem_ofList
            (List.forall_mem_map.2 (forall_mem_parts_map.1 ih))⟩
      | _ => exact .of_parts_eq_nil trivial rfl

end Value

/-- A number is finite, infinite or none. -/
theorem isFinite_iff
    {x : Float} :
    x.isFinite = true ↔ x.isNaN = false ∧ x.isInf = false := by
  have hkinds : ∀ u : Float.Model.UnpackedFloat,
      u.isFinite = true ↔ u.isNaN = false ∧ u.isInf = false := by
    intro u
    cases u with
    | notANumber => exact ⟨fun h => Bool.noConfusion h, fun h => Bool.noConfusion h.1⟩
    | infinity s => exact ⟨fun h => Bool.noConfusion h, fun h => Bool.noConfusion h.2⟩
    | _ => exact ⟨fun _ => ⟨rfl, rfl⟩, fun _ => rfl⟩
  exact hkinds x.toModel.unpack

namespace Atom

/-- The text of a finite number is read as the number. -/
theorem value_finite
    {x : Float}
    (h : x.isFinite = true) :
    IsRun (floatText x) ∧ value (floatText x) = .ok (.float x) := by
  obtain ⟨hproper, hinteger⟩ := Numeral.proper_ofFloat sourceNumbers x
  obtain ⟨hnan, hinf⟩ := isFinite_iff.1 h
  have htext : floatText x = (Numeral.ofFloat sourceNumbers x).text false := by
    rw [floatText, hnan, hinf]
    rfl
  rw [htext, value_text hproper hinteger, Numeral.nearest_ofFloat h]
  exact ⟨Numeral.isRun_text hproper, rfl⟩

/-- The word for a number that is not finite is read as a symbol. -/
theorem value_nonFinite
    {x : Float}
    (h : x.isFinite = false) :
    IsRun (floatText x) ∧ value (floatText x) = .ok (.symbol (String.ofList (floatText x))) := by
  unfold floatText
  split
  · exact ⟨by decide, rfl⟩
  · next hnan =>
    have hinf : x.isInf = true := by
      by_cases hinf : x.isInf = true
      · exact hinf
      · have hfinite := isFinite_iff.2 ⟨Bool.eq_false_iff.2 hnan, Bool.eq_false_iff.2 hinf⟩
        rw [h] at hfinite
        cases hfinite
    rw [if_pos hinf]
    split
    · exact ⟨by decide, rfl⟩
    · exact ⟨by decide, rfl⟩

end Atom

namespace Progress

/-- Adds some values one after the other. -/
def addAll (progress : Progress) (values : List Value) : Progress :=
  values.foldl add progress

@[simp] theorem addAll_cons
    (progress : Progress) (value : Value) (values : List Value) :
    progress.addAll (value :: values) = (progress.add value).addAll values := by
  rfl

/-- Values are added to the innermost open collection, the last one in front. -/
theorem addAll_open
    {forms : List Value} {bracket : Bracket} {start : List Char} {items values : List Value}
    {outer : List OpenCollection} :
    addAll ⟨forms, ⟨bracket, start, items⟩ :: outer⟩ values
      = ⟨forms, ⟨bracket, start, values.reverse ++ items⟩ :: outer⟩ := by
  induction values generalizing items with
  | nil => rfl
  | cons value values ih =>
      rw [addAll_cons]
      simp only [add, ih]
      simp

variable {progress : Progress} {rest : List Char}

/-- Keys and values in turn are paired up again. -/
theorem pairUp_flatMap
    (entries : List (Value × Value)) :
    pairUp (entries.flatMap fun e => [e.1, e.2]) = entries := by
  induction entries with
  | nil => rfl
  | cons e entries ih => simp [pairUp, ih]

/-- Paired items, taken apart again, are all items if their number is even. -/
theorem flatMap_pairUp
    {items : List Value}
    (heven : items.length % 2 = 0) :
    ((pairUp items).flatMap fun e => [e.1, e.2]) = items := by
  fun_induction pairUp items with
  | case1 key value items ih =>
      have hrest : items.length % 2 = 0 := by
        simp only [List.length_cons] at heven
        omega
      simp [ih hrest]
  | case2 items hitems =>
      match items, hitems, heven with
      | [], _, _ => rfl
      | _ :: _ :: _, hitems, _ => exact absurd rfl (hitems _ _ _)

/-- A map closes with the entries whose keys and values it holds in turn. -/
theorem close_map
    (entries : List (Value × Value)) (start : List Char) :
    OpenCollection.close ⟨.curly, start, (entries.flatMap fun e => [e.1, e.2]).reverse⟩
      = .ok (.map (Entries.ofList entries)) := by
  have heven : (entries.flatMap fun e => [e.1, e.2]).length % 2 = 0 := by
    induction entries with
    | nil => rfl
    | cons e entries ih =>
        rw [List.flatMap_cons, List.length_append]
        simp only [List.length_cons, List.length_nil]
        omega
  simp only [OpenCollection.close, List.reverse_reverse, heven, if_true, pairUp_flatMap]

/-- A collection is read as its value when its items are read up to the closing bracket. -/
theorem read_collection
    (bracket : Bracket)
    {inside : List Char} {items : List Value} {value : Value}
    (hinside : ∀ p : Progress,
      p.read (inside ++ bracket.closer :: rest) = (p.addAll items).read (bracket.closer :: rest))
    (hvalue : ∀ start, OpenCollection.close ⟨bracket, start, items.reverse⟩ = .ok value) :
    progress.read (bracket.opener :: (inside ++ bracket.closer :: rest))
      = (progress.add value).read rest := by
  rw [read_opening, hinside, addAll_open, List.append_nil]
  exact read_closing (hvalue _)

/-- Reading the text of a value adds the value as it is respelled, whatever was read before and
whatever ends the run. -/
def ReadsRespelled (value : Value) : Prop :=
  ∀ (progress : Progress) (rest : List Char), EndsRun rest →
    progress.read (value.chars ++ rest) = (progress.add value.respelled).read rest

/-- Items are read one after the other. -/
theorem read_itemChars
    {items : List Value}
    (hitems : ∀ item ∈ items, ReadsRespelled item)
    (hrest : EndsRun rest) :
    progress.read (Value.itemChars items ++ rest)
      = (progress.addAll (items.map Value.respelled)).read rest := by
  induction items generalizing progress with
  | nil => rfl
  | cons item items ih =>
      have hhead := hitems item List.mem_cons_self
      have htail := fun other hother => hitems other (List.mem_cons_of_mem item hother)
      cases items with
      | nil => exact hhead progress rest hrest
      | cons next items =>
          rw [Value.itemChars, List.append_assoc, List.cons_append,
            hhead progress _ (endsRun_blank _), read_blank, ih htail]
          · rfl
          · simp

/-- Keys and values are read in turn. -/
theorem read_entryChars
    {entries : List (Value × Value)}
    (hentries : ∀ e ∈ entries, ∀ part ∈ [e.1, e.2], ReadsRespelled part)
    (hrest : EndsRun rest) :
    progress.read (Value.entryChars entries ++ rest)
      = (progress.addAll (entries.flatMap fun e => [e.1.respelled, e.2.respelled])).read rest := by
  induction entries generalizing progress with
  | nil => rfl
  | cons e entries ih =>
      rcases e with ⟨key, value⟩
      have hkey := hentries (key, value) List.mem_cons_self key (by simp)
      have hvalue := hentries (key, value) List.mem_cons_self value (by simp)
      have htail := fun other hother => hentries other (List.mem_cons_of_mem (key, value) hother)
      cases entries with
      | nil =>
          rw [Value.entryChars, List.append_assoc, List.cons_append, hkey _ _ (endsRun_blank _),
            read_blank, hvalue _ _ hrest]
          rfl
      | cons next entries =>
          rw [Value.entryChars, List.append_assoc, List.cons_append, hkey _ _ (endsRun_blank _),
            read_blank, List.append_assoc, List.cons_append, hvalue _ _ (endsRun_blank _),
            read_blank, ih htail]
          · rfl
          · simp

/-- A value whose names are spelled as what they are is read from its text as it is respelled. -/
theorem read_chars
    {value : Value}
    (h : value.Everywhere Value.Spelled) :
    ReadsRespelled value := by
  induction h with
  | @intro value here parts ih =>
      intro progress rest hrest
      cases value with
      | nil => exact read_run (by decide) hrest rfl
      | boolean flag => cases flag <;> exact read_run (by decide) hrest rfl
      | integer number =>
          have hrun := Numeral.isRun_text (Numeral.proper_ofInt number.toInt)
          rw [Numeral.text_ofInt] at hrun
          exact read_run hrun hrest (Atom.value_integerText number)
      | float number =>
          rw [Value.chars, Value.respelled]
          cases hfinite : number.isFinite with
          | true =>
              obtain ⟨hrun, hvalue⟩ := Atom.value_finite hfinite
              exact read_run hrun hrest hvalue
          | false =>
              obtain ⟨hrun, hvalue⟩ := Atom.value_nonFinite hfinite
              exact read_run hrun hrest hvalue
      | string text =>
          rw [Value.chars, read_literal, String.ofList_toList, Value.respelled]
          all_goals simp
      | symbol name =>
          have hname : IsSymbolName name := here
          exact read_run hname.run hrest (Atom.value_symbolName hname)
      | keyword name =>
          have hname : IsRun name.toList := here
          have hrun : IsRun (':' :: name.toList) :=
            ⟨by simp, List.forall_mem_cons.2 ⟨by decide, hname.2⟩⟩
          exact read_run hrun hrest (Atom.value_keyword hname)
      | list items =>
          rw [Value.chars, Value.respelled, Value.respelledItems_eq_map, List.cons_append,
            List.append_assoc]
          exact read_collection .round
            (fun p => read_itemChars ih (endsRun_closer .round rest))
            (fun start => by simp [OpenCollection.close])
      | vector items =>
          rw [Value.chars, Value.respelled, Value.respelledItems_eq_map, List.cons_append,
            List.append_assoc]
          exact read_collection .square
            (fun p => read_itemChars ih (endsRun_closer .square rest))
            (fun start => by simp [OpenCollection.close])
      | map entries =>
          have hentries : ∀ e ∈ entries, ∀ part ∈ [e.1, e.2], ReadsRespelled part :=
            fun e he part hpart => ih part (List.mem_flatMap.2 ⟨e, he, hpart⟩)
          rw [Value.chars, Value.respelled, Value.respelledEntries_eq_map, List.cons_append,
            List.append_assoc]
          refine read_collection .curly
            (fun p => read_entryChars hentries (endsRun_closer .curly rest))
            (fun start => ?_)
          have hclose := close_map (entries.map fun e => (e.1.respelled, e.2.respelled)) start
          rwa [List.flatMap_map] at hclose

end Progress

end TaskTree
