import TaskTree.Proofs.Source.Reading

/-!
# The text of a value is one line

In a string the end of a line is escaped, a name that is spelled as a run of symbol
characters has none, and what stands between the items of a collection is a blank.

**Results.**
* `Value.newline_not_mem_chars`: the text of a value has no end of a line in it.
-/

namespace TaskTree

/-- There is no end of a line in a run of symbol characters. -/
theorem IsRun.newline_not_mem
    {run : List Char}
    (h : IsRun run) :
    '\n' ∉ run := by
  intro hmem
  cases h.2 '\n' hmem

theorem newline_not_mem_floatText
    (x : Float) :
    '\n' ∉ floatText x := by
  cases hfinite : x.isFinite with
  | true => exact (Atom.value_finite hfinite).1.newline_not_mem
  | false => exact (Atom.value_nonFinite hfinite).1.newline_not_mem

namespace Quoted

/-- The letter for an escaped character is no end of a line. -/
theorem ne_newline_of_escapeOf?
    {c letter : Char}
    (h : escapeOf? c = some letter) :
    letter ≠ '\n' := by
  unfold escapeOf? at h
  split at h <;> cases h <;> decide

theorem newline_not_mem_escape
    (text : List Char) :
    '\n' ∉ escape text := by
  induction text with
  | nil => simp [escape]
  | cons c text ih =>
      rw [escape]
      cases hc : escapeOf? c with
      | some letter => simp [ih, (ne_newline_of_escapeOf? hc).symm]
      | none =>
          have hne : c ≠ '\n' := by
            rintro rfl
            cases hc
          simp [ih, hne.symm]

theorem newline_not_mem_encode
    (text : List Char) :
    '\n' ∉ encode text := by
  simp [encode, newline_not_mem_escape text]

end Quoted

namespace Value

theorem newline_not_mem_itemChars
    {items : List Value}
    (h : ∀ item ∈ items, '\n' ∉ item.chars) :
    '\n' ∉ itemChars items := by
  induction items with
  | nil => simp [itemChars]
  | cons item items ih =>
      obtain ⟨hitem, h⟩ := List.forall_mem_cons.1 h
      cases items with
      | nil => exact hitem
      | cons next items =>
          have hrest := ih h
          simp [itemChars, hitem, hrest]

theorem newline_not_mem_entryChars
    {entries : List (Value × Value)}
    (h : ∀ e ∈ entries, '\n' ∉ e.1.chars ∧ '\n' ∉ e.2.chars) :
    '\n' ∉ entryChars entries := by
  induction entries with
  | nil => simp [entryChars]
  | cons e entries ih =>
      obtain ⟨⟨hkey, hvalue⟩, h⟩ := List.forall_mem_cons.1 h
      cases entries with
      | nil => simp [entryChars, hkey, hvalue]
      | cons next entries =>
          have hrest := ih h
          simp [entryChars, hkey, hvalue, hrest]

/-- The text of a value whose names are spelled as runs is one line. -/
theorem newline_not_mem_chars
    {value : Value}
    (h : value.Everywhere Spelled) :
    '\n' ∉ value.chars := by
  induction h with
  | @intro value here parts ih =>
      cases value with
      | nil => decide
      | boolean flag => cases flag <;> decide
      | integer number =>
          have hrun := Numeral.isRun_text (Numeral.proper_ofInt number.toInt)
          rw [Numeral.text_ofInt] at hrun
          exact hrun.newline_not_mem
      | float number => exact newline_not_mem_floatText number
      | string text => exact Quoted.newline_not_mem_encode text.toList
      | symbol name =>
          have hname : IsSymbolName name := here
          exact hname.run.newline_not_mem
      | keyword name =>
          have hname : IsRun name.toList := here
          simp [chars, hname.newline_not_mem]
      | list items =>
          have hitems : '\n' ∉ itemChars items := newline_not_mem_itemChars ih
          simp [chars, hitems]
      | vector items =>
          have hitems : '\n' ∉ itemChars items := newline_not_mem_itemChars ih
          simp [chars, hitems]
      | map entries =>
          have hentries := forall_mem_parts_map.1 ih
          simp [chars, newline_not_mem_entryChars hentries]

end Value

end TaskTree
