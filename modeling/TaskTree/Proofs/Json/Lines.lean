import TaskTree.Proofs.Json.Reading

/-!
# A compact JSON text is one line

Control characters are escaped in strings, and the numbers of JSON consist of symbol characters.

**Results.**
* `Json.Standard.newline_not_mem_compact`: a compact text has no end of a line in it.
-/

namespace TaskTree

namespace JsonText

theorem hexDigit_ne_newline
    {n : Nat}
    (h : n < 16) :
    hexDigit n ≠ '\n' := by
  have hall : ∀ n : Fin 16, hexDigit n ≠ '\n' := by decide
  exact hall ⟨n, h⟩

theorem newline_not_mem_escapeChar
    (c : Char) :
    '\n' ∉ escapeChar c := by
  rcases escapeChar_cases c with ⟨letter, hletter, h⟩ | ⟨hcontrol, h⟩ | ⟨-, -, hplain, h⟩
  · have hne : letter ≠ '\n' := by
      rintro rfl
      cases hletter
    rw [h]
    simp [hne.symm]
  · have hhigh := hexDigit_ne_newline (show c.toNat / 16 < 16 by omega)
    have hlow := hexDigit_ne_newline (show c.toNat % 16 < 16 by omega)
    rw [h]
    simp [hhigh.symm, hlow.symm]
  · have hne : c ≠ '\n' := by
      rintro rfl
      exact hplain (by decide)
    rw [h]
    simp [hne.symm]

theorem newline_not_mem_encode
    (text : List Char) :
    '\n' ∉ encode text := by
  have hescaped : '\n' ∉ text.flatMap escapeChar := by
    intro hmem
    obtain ⟨c, -, hc⟩ := List.mem_flatMap.1 hmem
    exact newline_not_mem_escapeChar c hc
  simp [encode, hescaped]

end JsonText

namespace Numeral

theorem newline_not_mem_digits
    {digits : List Char}
    (h : ∀ c ∈ digits, c.isDigit = true) :
    '\n' ∉ digits := by
  intro hmem
  cases h '\n' hmem

theorem newline_not_mem_integerText
    (i : Int) :
    '\n' ∉ integerText i := by
  intro hmem
  cases isSymbolChar_integerText hmem

/-- In the text of a numeral there are digits, signs, the point and the mark of its power. -/
theorem newline_not_mem_text
    {n : Numeral}
    (h : n.Proper)
    (plus : Bool) :
    '\n' ∉ n.text plus := by
  have hwhole := newline_not_mem_digits h.whole
  have hfraction := newline_not_mem_digits h.fraction
  have hsign : '\n' ∉ if n.negative then ['-'] else [] := by
    split <;> decide
  have hpoint : '\n' ∉ if n.fraction.isEmpty then [] else '.' :: n.fraction := by
    split
    · decide
    · simp [hfraction]
  simp only [text, List.mem_append, not_or]
  refine ⟨⟨⟨hsign, hwhole⟩, hpoint⟩, ?_⟩
  cases n.exponent with
  | none => exact List.not_mem_nil
  | some e => simp [newline_not_mem_integerText e]

end Numeral

namespace Json

variable {text : Json → List Char}

theorem newline_not_mem_joinItems
    {items : List Json}
    (h : ∀ item ∈ items, '\n' ∉ text item) :
    '\n' ∉ joinItems [] text items := by
  induction items with
  | nil => simp [joinItems]
  | cons item items ih =>
      obtain ⟨hitem, h⟩ := List.forall_mem_cons.1 h
      have hrest := ih h
      cases items with
      | nil => simpa [joinItems] using hitem
      | cons next items => simp [joinItems, hitem, hrest]

theorem newline_not_mem_joinFields
    {fields : List (String × Json)}
    (h : ∀ f ∈ fields, '\n' ∉ text f.2) :
    '\n' ∉ joinFields [] [] text fields := by
  induction fields with
  | nil => simp [joinFields]
  | cons f fields ih =>
      obtain ⟨hvalue, h⟩ := List.forall_mem_cons.1 h
      have hname := JsonText.newline_not_mem_encode f.1.toList
      have hrest := ih h
      cases fields with
      | nil => simp [joinFields, hname, hvalue]
      | cons next fields => simp [joinFields, hname, hvalue, hrest]

/-- The compact text of a tree is one line. -/
theorem Standard.newline_not_mem_compact
    {json : Json}
    (h : json.Standard) :
    '\n' ∉ json.compact := by
  induction h with
  | null => decide
  | bool flag => cases flag <;> decide
  | number h => exact Numeral.newline_not_mem_text h.toProper _
  | string text => exact JsonText.newline_not_mem_encode text.toList
  | array _ ih =>
      have hitems := newline_not_mem_joinItems ih
      rw [← compactItems_eq] at hitems
      simp [compact, hitems]
  | object _ ih =>
      have hfields := newline_not_mem_joinFields ih
      rw [← compactFields_eq] at hfields
      simp [compact, hfields]

end Json
end TaskTree
