import TaskTree.Json.Parse
import TaskTree.Json.Written
import TaskTree.Proofs.Json.Number
import TaskTree.Proofs.Json.Text

/-!
# JSON trees read back

A text reads as a tree when, wherever a tree may come, reading goes through the
text and is left with the tree.  What reads as the parts of a list or an object,
with commas between and blanks around them, reads as the whole; the two layouts
differ in the blanks only.

**Results.**
* `Json.Standard.readsAs_compact`, `Json.Standard.readsAs_spread`: the text of a tree reads as
  the tree in both layouts.
* `Json.parse_written`: a tree is read back from its text.
-/

namespace TaskTree

namespace JsonToken

/-- Only blanks. -/
def Blanks (s : List Char) : Prop :=
  ∀ c ∈ s, isBlank c = true

theorem ofText_eq_nil
    {s : List Char}
    (h : s.dropWhile isBlank = []) :
    ofText s = [] := by
  refine Text.pieces_eq_nil ?_
  unfold scan
  split
  · rfl
  · next heq => rw [h] at heq; cases heq

theorem ofText_eq_cons
    {s rest : List Char} {c : Char}
    (h : s.dropWhile isBlank = c :: rest) :
    ofText s = (next c rest).1 :: ofText (next c rest).2 := by
  have hscan : scan s = some ⟨(next c rest).1, (next c rest).2, length_rest_lt h⟩ := by
    unfold scan
    split
    · next heq => rw [h] at heq; cases heq
    · next heq =>
      rw [h] at heq
      cases heq
      rfl
  exact Text.pieces_eq_cons hscan

/-- A token starts where there is no blank. -/
theorem ofText_cons
    {c : Char}
    (hblank : isBlank c = false)
    (s : List Char) :
    ofText (c :: s) = (next c s).1 :: ofText (next c s).2 :=
  ofText_eq_cons (by simp [hblank])

/-- Blanks before a token do not matter. -/
theorem ofText_blanks_append
    {blanks : List Char}
    (h : Blanks blanks)
    (s : List Char) :
    ofText (blanks ++ s) = ofText s := by
  have hdrop : (blanks ++ s).dropWhile isBlank = s.dropWhile isBlank :=
    List.dropWhile_append_of_pos h
  cases hs : s.dropWhile isBlank with
  | nil => rw [ofText_eq_nil hs, ofText_eq_nil (hdrop.trans hs)]
  | cons c rest => rw [ofText_eq_cons hs, ofText_eq_cons (hdrop.trans hs)]

theorem continuesNumber_of_isBlank
    {c : Char}
    (h : isBlank c = true) :
    continuesNumber c = false := by
  simp only [isBlank, Bool.or_eq_true, beq_iff_eq] at h
  rcases h with ((rfl | rfl) | rfl) | rfl <;> decide

/-- Blanks may stand behind a number. -/
theorem endsNumber_blanks_append
    {blanks rest : List Char}
    (h : Blanks blanks)
    (hrest : EndsNumber rest) :
    EndsNumber (blanks ++ rest) := by
  cases blanks with
  | nil => exact hrest
  | cons c blanks => exact endsNumber_cons (continuesNumber_of_isBlank (h c List.mem_cons_self))

theorem takeWord_append
    (letters rest : List Char) :
    takeWord letters (letters ++ rest) = .ok rest := by
  induction letters with
  | nil => rfl
  | cons letter letters ih => simp [takeWord, ih]

/-- A string is one token. -/
theorem next_quote
    (text rest : List Char) :
    next '"' (text.flatMap JsonText.escapeChar ++ '"' :: rest)
      = (.string (text.flatMap JsonText.escapeChar ++ '"' :: rest), rest) := by
  rw [next, JsonText.skip_encoded]
  rfl

theorem stringText_encoded
    (text : String) (rest : List Char) :
    stringText (text.toList.flatMap JsonText.escapeChar ++ '"' :: rest) = .ok text := by
  rw [stringText, JsonText.decode_encoded]
  simp [Except.map]

/-- A number is one token. -/
theorem ofNumber_text
    {n : Numeral} {rest : List Char}
    (h : n.Standard)
    (hrest : EndsNumber rest) :
    ofNumber (n.text Json.numbers.plus ++ rest)
      = (.number (n.text Json.numbers.plus ++ rest), rest) := by
  rw [ofNumber, Numeral.takeNumber_text h hrest]
  rfl

end JsonToken

namespace JsonState

open JsonToken

/-- Reads on from a state to the end of the first tree. -/
def read (state : JsonState) (s : List Char) : Except JsonFault (Json × List JsonToken) :=
  Json.run state (ofText s)

/-- Reads on from what a token led to. -/
def resume : Json ⊕ JsonState → List Char → Except JsonFault (Json × List JsonToken)
  | .inl json, s => .ok (json, ofText s)
  | .inr state, s => state.read s

/-- Reading takes the first token and goes on behind it. -/
theorem read_eq_resume
    {state : JsonState} {c : Char} {s : List Char} {reached : Json ⊕ JsonState}
    (hblank : isBlank c = false)
    (hstep : state.step (next c s).1 = .ok reached) :
    state.read (c :: s) = resume reached (next c s).2 := by
  rw [read, ofText_cons hblank, Json.run, hstep]
  cases reached <;> rfl

/-- States that agree on the first token read alike. -/
theorem read_congr
    {state state' : JsonState} {c : Char} {s : List Char}
    (hblank : isBlank c = false)
    (hstep : state.step (next c s).1 = state'.step (next c s).1) :
    state.read (c :: s) = state'.read (c :: s) := by
  rw [read, read, ofText_cons hblank, Json.run, Json.run, hstep]

theorem read_blanks_append
    {blanks : List Char}
    (h : Blanks blanks)
    (state : JsonState) (s : List Char) :
    state.read (blanks ++ s) = state.read s := by
  rw [read, ofText_blanks_append h, read]

/-- A list that is not closed at once goes on with an item. -/
theorem step_wantFirstItem
    {token : JsonToken}
    (h : token ≠ .closeList)
    (outer : List JsonFrame) :
    step (.wantFirstItem outer) token = step (.wantValue (.list [] :: outer)) token := by
  cases token <;> first | rfl | exact absurd rfl h

end JsonState

namespace Json

open JsonToken JsonState

/-- Whether a character may begin a tree. -/
def Begins (c : Char) : Prop :=
  isBlank c = false ∧ ∀ s, (next c s).1 ≠ .closeList

/-- Wherever a tree may come, the text is read as the tree. -/
structure ReadsAs (text : List Char) (json : Json) : Prop where
  begins : ∃ c s, text = c :: s ∧ Begins c
  read : ∀ outer rest, EndsNumber rest →
    (wantValue outer).read (text ++ rest) = resume (complete outer json) rest

/-- The text up to a closing bracket is read as the rest of a list. -/
def ItemsReadAs (text : List Char) (items : List Json) : Prop :=
  ∀ held outer rest,
    (wantValue (.list held :: outer)).read (text ++ ']' :: rest)
      = resume (complete outer (.array (held.reverse ++ items))) rest

/-- The text up to a closing brace is read as the rest of an object. -/
def FieldsReadAs (text : List Char) (fields : List (String × Json)) : Prop :=
  ∀ held outer rest,
    (wantName held outer).read (text ++ '\x7d' :: rest)
      = resume
          (complete outer (ofFields (held.reverse ++ fields.map fun f => (some f.1, f.2)))) rest

section Scalars

theorem readsAs_number
    {n : Numeral}
    (h : n.Standard) :
    ReadsAs (n.text numbers.plus) (.number n) := by
  obtain ⟨c, s, htext, hc⟩ := Numeral.exists_text_eq_cons h.toProper
  have hblank : isBlank c = false := by
    rcases hc with rfl | hc
    · rfl
    · cases hblank : isBlank c with
      | false => rfl
      | true =>
          have hdigit := continuesNumber_of_isBlank hblank
          simp [continuesNumber, hc] at hdigit
  have hnumber : ∀ s, (next c s).1 = .number (c :: s) := by
    intro s
    rw [next_of_numeric hc]
    rfl
  refine ⟨⟨c, s, htext, hblank, by simp [hnumber]⟩, fun outer rest hrest => ?_⟩
  have hnext : next c (s ++ rest) = (.number (n.text numbers.plus ++ rest), rest) := by
    rw [next_of_numeric hc, ← ofNumber_text h hrest, htext, List.cons_append]
  have hstep : step (.wantValue outer) (next c (s ++ rest)).1
      = .ok (complete outer (.number n)) := by
    simp only [hnext, step, startValue, Numeral.takeNumber_text h hrest]
  rw [htext, List.cons_append, read_eq_resume hblank hstep, hnext]

theorem ofString_encoded
    (text : String) (rest : List Char) :
    ofString (text.toList.flatMap JsonText.escapeChar ++ '"' :: rest) = .ok (.string text) := by
  rw [ofString, JsonText.skip_encoded, stringText_encoded]

theorem encode_append
    (text rest : List Char) :
    JsonText.encode text ++ rest = '"' :: (text.flatMap JsonText.escapeChar ++ '"' :: rest) := by
  simp [JsonText.encode]

theorem begins_quote :
    Begins '"' :=
  ⟨rfl, fun _ => by simp [next]⟩

theorem readsAs_string
    (text : String) :
    ReadsAs (JsonText.encode text.toList) (.string text) := by
  refine ⟨⟨'"', _, rfl, begins_quote⟩, fun outer rest _ => ?_⟩
  have hstep : step (.wantValue outer)
      (next '"' (text.toList.flatMap JsonText.escapeChar ++ '"' :: rest)).1
      = .ok (complete outer (.string text)) := by
    simp only [next_quote, step, startValue, ofString_encoded]
  rw [encode_append, read_eq_resume rfl hstep, next_quote]

/-- A word is one token. -/
theorem readsAs_word
    {c : Char} {letters : List Char} {json : Json}
    (hblank : isBlank c = false)
    (hnext : ∀ s, next c s = ofWord letters json s) :
    ReadsAs (c :: letters) json := by
  refine ⟨⟨c, letters, rfl, hblank, by simp [hnext, ofWord]⟩, fun outer rest _ => ?_⟩
  have hstep : step (.wantValue outer) (next c (letters ++ rest)).1
      = .ok (complete outer json) := by
    simp [hnext, ofWord, takeWord_append, step, startValue, Except.map]
  rw [List.cons_append, read_eq_resume hblank hstep, hnext, ofWord, takeWord_append]
  rfl

end Scalars

section Lists

variable {before text after more : List Char} {json : Json} {items : List Json}

/-- An item is read up to what follows it. -/
theorem ReadsAs.read_item
    (h : ReadsAs text json)
    (hbefore : Blanks before)
    {rest : List Char}
    (hrest : EndsNumber rest)
    (inner : JsonFrame) (outer : List JsonFrame) :
    (wantValue (inner :: outer)).read (before ++ (text ++ rest))
      = (behind json inner outer).read rest := by
  rw [read_blanks_append hbefore, h.read (inner :: outer) rest hrest]
  rfl

theorem ReadsAs.itemsReadAs_singleton
    (h : ReadsAs text json)
    (hbefore : Blanks before)
    (hafter : Blanks after) :
    ItemsReadAs (before ++ (text ++ after)) [json] := by
  intro held outer rest
  have hends : EndsNumber (after ++ ']' :: rest) :=
    endsNumber_blanks_append hafter (endsNumber_cons rfl)
  rw [List.append_assoc, List.append_assoc, h.read_item hbefore hends,
    read_blanks_append hafter, read_eq_resume rfl rfl]
  simp [next]

theorem ReadsAs.itemsReadAs_cons
    (h : ReadsAs text json)
    (hbefore : Blanks before)
    (hmore : ItemsReadAs more items) :
    ItemsReadAs (before ++ (text ++ ',' :: more)) (json :: items) := by
  intro held outer rest
  have hends : EndsNumber (',' :: (more ++ ']' :: rest)) := endsNumber_cons rfl
  have hrest := hmore (json :: held) outer rest
  rw [List.reverse_cons, List.append_assoc] at hrest
  rw [List.append_assoc, List.append_assoc, List.cons_append, h.read_item hbefore hends,
    read_eq_resume rfl rfl]
  exact hrest

/-- Items between brackets are read as a list. -/
theorem ItemsReadAs.readsAs_array
    (h : ItemsReadAs text items)
    (hbefore : Blanks before)
    (hbegins : ∃ c s, text = before ++ c :: s ∧ Begins c) :
    ReadsAs ('[' :: (text ++ [']'])) (.array items) := by
  refine ⟨⟨'[', _, rfl, rfl, fun _ => by simp [next]⟩, fun outer rest _ => ?_⟩
  have hfirst : (wantFirstItem outer).read (text ++ ']' :: rest)
      = (wantValue (.list [] :: outer)).read (text ++ ']' :: rest) := by
    obtain ⟨c, s, rfl, hblank, hclose⟩ := hbegins
    rw [List.append_assoc, read_blanks_append hbefore, read_blanks_append hbefore,
      List.cons_append]
    exact read_congr hblank (step_wantFirstItem (hclose _) outer)
  rw [List.cons_append, List.append_assoc, read_eq_resume rfl rfl]
  exact hfirst.trans (h [] outer rest)

theorem readsAs_emptyArray :
    ReadsAs ['[', ']'] (.array []) := by
  refine ⟨⟨'[', _, rfl, rfl, fun _ => by simp [next]⟩, fun outer rest _ => ?_⟩
  rw [List.cons_append, read_eq_resume rfl rfl]
  exact read_eq_resume rfl rfl

end Lists

section Objects

variable {before between text after more : List Char} {json : Json}
  {fields : List (String × Json)}

theorem namedFields?_named
    (fields : List (String × Json)) :
    namedFields? (fields.map fun f => (some f.1, f.2)) = some fields := by
  induction fields with
  | nil => rfl
  | cons f fields ih => simp [namedFields?, ih]

theorem ofFields_named
    (fields : List (String × Json)) :
    ofFields (fields.map fun f => (some f.1, f.2)) = .object fields := by
  rw [ofFields, namedFields?_named]

/-- A name, a colon and a tree are read up to what follows them. -/
theorem ReadsAs.read_field
    (h : ReadsAs text json)
    (hbefore : Blanks before)
    (hbetween : Blanks between)
    {rest : List Char}
    (hrest : EndsNumber rest)
    (name : String) (held : List (Option String × Json)) (outer : List JsonFrame) :
    (wantName held outer).read
        (before ++ (JsonText.encode name.toList ++ ':' :: (between ++ (text ++ rest))))
      = (behind json (.object held (some name)) outer).read rest := by
  have hstep : ∀ rest, step (.wantName held outer)
      (next '"' (name.toList.flatMap JsonText.escapeChar ++ '"' :: rest)).1
      = .ok (.inr (.wantColon held (some name) outer)) := by
    intro rest
    simp only [next_quote, step, takeName, JsonText.skip_encoded, stringText_encoded]
    rfl
  have hcolon : ∀ s, (wantColon held (some name) outer).read (':' :: s)
      = (wantValue (.object held (some name) :: outer)).read s := by
    intro s
    rw [read_eq_resume rfl rfl]
    rfl
  rw [read_blanks_append hbefore, encode_append, read_eq_resume rfl (hstep _), next_quote]
  exact (hcolon _).trans (h.read_item hbetween hrest _ outer)

theorem ReadsAs.fieldsReadAs_singleton
    (h : ReadsAs text json)
    (hbefore : Blanks before)
    (hbetween : Blanks between)
    (hafter : Blanks after)
    (name : String) :
    FieldsReadAs
      (before ++ (JsonText.encode name.toList ++ ':' :: (between ++ (text ++ after))))
      [(name, json)] := by
  intro held outer rest
  have hends : EndsNumber (after ++ '\x7d' :: rest) :=
    endsNumber_blanks_append hafter (endsNumber_cons rfl)
  have hread := h.read_field hbefore hbetween hends name held outer
  simp only [List.append_assoc, List.cons_append] at hread ⊢
  rw [hread, read_blanks_append hafter, read_eq_resume rfl rfl]
  simp [next]

theorem ReadsAs.fieldsReadAs_cons
    (h : ReadsAs text json)
    (hbefore : Blanks before)
    (hbetween : Blanks between)
    (hmore : FieldsReadAs more fields)
    (name : String) :
    FieldsReadAs
      (before ++ (JsonText.encode name.toList ++ ':' :: (between ++ (text ++ ',' :: more))))
      ((name, json) :: fields) := by
  intro held outer rest
  have hends : EndsNumber (',' :: (more ++ '\x7d' :: rest)) := endsNumber_cons rfl
  have hread := h.read_field hbefore hbetween hends name held outer
  have hrest := hmore ((some name, json) :: held) outer rest
  rw [List.reverse_cons, List.append_assoc] at hrest
  simp only [List.append_assoc, List.cons_append] at hread ⊢
  rw [hread, read_eq_resume rfl rfl]
  exact hrest

/-- Fields between braces are read as an object. -/
theorem FieldsReadAs.readsAs_object
    (h : FieldsReadAs text fields)
    (hbefore : Blanks before)
    (hbegins : ∃ s, text = before ++ '"' :: s) :
    ReadsAs ('{' :: (text ++ ['\x7d'])) (.object fields) := by
  refine ⟨⟨'{', _, rfl, rfl, fun _ => by simp [next]⟩, fun outer rest _ => ?_⟩
  have hfirst : (wantFirstName outer).read (text ++ '\x7d' :: rest)
      = (wantName [] outer).read (text ++ '\x7d' :: rest) := by
    obtain ⟨s, rfl⟩ := hbegins
    rw [List.append_assoc, read_blanks_append hbefore, read_blanks_append hbefore,
      List.cons_append]
    exact read_congr rfl rfl
  have hread := h [] outer rest
  rw [List.reverse_nil, List.nil_append, ofFields_named] at hread
  rw [List.cons_append, List.append_assoc, read_eq_resume rfl rfl]
  exact hfirst.trans hread

theorem readsAs_emptyObject :
    ReadsAs ['{', '\x7d'] (.object []) := by
  refine ⟨⟨'{', _, rfl, rfl, fun _ => by simp [next]⟩, fun outer rest _ => ?_⟩
  rw [List.cons_append, read_eq_resume rfl rfl]
  exact read_eq_resume rfl rfl

end Objects

section Layouts

variable {before between after : List Char} {text : Json → List Char}

/-- Items with commas between and the same blanks before each. -/
def joinItems (before : List Char) (text : Json → List Char) : List Json → List Char
  | [] => []
  | [item] => before ++ text item
  | item :: items => before ++ (text item ++ ',' :: joinItems before text items)

/-- Fields with commas between, the same blanks before each, and the same behind each colon. -/
def joinFields (before between : List Char) (text : Json → List Char) :
    List (String × Json) → List Char
  | [] => []
  | [(name, value)] =>
      before ++ (JsonText.encode name.toList ++ ':' :: (between ++ text value))
  | (name, value) :: fields =>
      before ++ (JsonText.encode name.toList
        ++ ':' :: (between ++ (text value ++ ',' :: joinFields before between text fields)))

theorem compactItems_eq
    (items : List Json) :
    compactItems items = joinItems [] compact items := by
  induction items with
  | nil => rfl
  | cons item items ih => cases items <;> simp [compactItems, joinItems, ih]

theorem compactFields_eq
    (fields : List (String × Json)) :
    compactFields fields = joinFields [] [] compact fields := by
  induction fields with
  | nil => rfl
  | cons field fields ih => cases fields <;> simp [compactFields, joinFields, ih]

theorem spreadItems_eq
    (depth : Nat) (items : List Json) :
    spreadItems depth items = joinItems (newLine depth) (spread depth) items := by
  induction items with
  | nil => rfl
  | cons item items ih => cases items <;> simp [spreadItems, joinItems, ih]

theorem spreadFields_eq
    (depth : Nat) (fields : List (String × Json)) :
    spreadFields depth fields = joinFields (newLine depth) [' '] (spread depth) fields := by
  induction fields with
  | nil => rfl
  | cons field fields ih => cases fields <;> simp [spreadFields, joinFields, ih]

theorem itemsReadAs_joinItems
    {items : List Json}
    (hne : items ≠ [])
    (hbefore : Blanks before)
    (hafter : Blanks after)
    (h : ∀ item ∈ items, ReadsAs (text item) item) :
    ItemsReadAs (joinItems before text items ++ after) items := by
  induction items with
  | nil => exact absurd rfl hne
  | cons item items ih =>
      have hitem := h item List.mem_cons_self
      cases items with
      | nil =>
          have hread := hitem.itemsReadAs_singleton hbefore hafter
          simpa [joinItems] using hread
      | cons item' items =>
          have hmore := ih (by simp) fun i hi => h i (List.mem_cons_of_mem _ hi)
          have hread := hitem.itemsReadAs_cons hbefore hmore
          simpa [joinItems] using hread

theorem fieldsReadAs_joinFields
    {fields : List (String × Json)}
    (hne : fields ≠ [])
    (hbefore : Blanks before)
    (hbetween : Blanks between)
    (hafter : Blanks after)
    (h : ∀ f ∈ fields, ReadsAs (text f.2) f.2) :
    FieldsReadAs (joinFields before between text fields ++ after) fields := by
  induction fields with
  | nil => exact absurd rfl hne
  | cons f fields ih =>
      have hvalue := h f List.mem_cons_self
      cases fields with
      | nil =>
          have hread := hvalue.fieldsReadAs_singleton hbefore hbetween hafter f.1
          simpa [joinFields] using hread
      | cons f' fields =>
          have hmore := ih (by simp) fun i hi => h i (List.mem_cons_of_mem _ hi)
          have hread := hvalue.fieldsReadAs_cons hbefore hbetween hmore f.1
          simpa [joinFields] using hread

/-- Joined items between brackets are read as a list. -/
theorem readsAs_joinItems
    {items : List Json}
    (hne : items ≠ [])
    (hbefore : Blanks before)
    (hafter : Blanks after)
    (h : ∀ item ∈ items, ReadsAs (text item) item) :
    ReadsAs ('[' :: (joinItems before text items ++ after ++ [']'])) (.array items) := by
  refine (itemsReadAs_joinItems hne hbefore hafter h).readsAs_array hbefore ?_
  obtain ⟨item, items, rfl⟩ := List.exists_cons_of_ne_nil hne
  obtain ⟨c, s, htext, hc⟩ := (h item List.mem_cons_self).begins
  cases items with
  | nil => exact ⟨c, s ++ after, by simp [joinItems, htext], hc⟩
  | cons item' items =>
      exact ⟨c, s ++ ',' :: joinItems before text (item' :: items) ++ after,
        by simp [joinItems, htext], hc⟩

/-- Joined fields between braces are read as an object. -/
theorem readsAs_joinFields
    {fields : List (String × Json)}
    (hne : fields ≠ [])
    (hbefore : Blanks before)
    (hbetween : Blanks between)
    (hafter : Blanks after)
    (h : ∀ f ∈ fields, ReadsAs (text f.2) f.2) :
    ReadsAs ('{' :: (joinFields before between text fields ++ after ++ ['\x7d']))
      (.object fields) := by
  refine (fieldsReadAs_joinFields hne hbefore hbetween hafter h).readsAs_object hbefore ?_
  obtain ⟨f, fields, rfl⟩ := List.exists_cons_of_ne_nil hne
  cases fields with
  | nil => exact ⟨_, by simp [joinFields, JsonText.encode]; rfl⟩
  | cons f' fields => exact ⟨_, by simp [joinFields, JsonText.encode]; rfl⟩

theorem blanks_nil :
    Blanks [] := by
  simp [Blanks]

theorem blanks_space :
    Blanks [' '] := by
  simp [Blanks, isBlank]

theorem blanks_newLine
    (depth : Nat) :
    Blanks (newLine depth) := by
  intro c hc
  rcases List.mem_cons.1 hc with rfl | hc
  · rfl
  · obtain rfl := List.eq_of_mem_replicate hc
    rfl

end Layouts

/-- The tree has a text: its numbers are those of JSON, and no string is unpaired. -/
inductive Standard : Json → Prop
  | null : Standard .null
  | bool
      (flag : Bool) :
      Standard (.bool flag)
  | number
      {n : Numeral}
      (h : n.Standard) :
      Standard (.number n)
  | string
      (text : String) :
      Standard (.string text)
  | array
      {items : List Json}
      (h : ∀ item ∈ items, Standard item) :
      Standard (.array items)
  | object
      {fields : List (String × Json)}
      (h : ∀ f ∈ fields, Standard f.2) :
      Standard (.object fields)

section Written

variable {json : Json}

theorem readsAs_bool
    (flag : Bool) :
    ReadsAs (compact (.bool flag)) (.bool flag) := by
  cases flag with
  | true => exact readsAs_word rfl fun _ => rfl
  | false => exact readsAs_word rfl fun _ => rfl

theorem Standard.readsAs_compact
    (h : json.Standard) :
    ReadsAs json.compact json := by
  induction h with
  | null => exact readsAs_word rfl fun _ => rfl
  | bool flag => exact readsAs_bool flag
  | number hn => exact readsAs_number hn
  | string text => exact readsAs_string text
  | @array items h ih =>
      by_cases hne : items = []
      · subst hne
        exact readsAs_emptyArray
      · have hread := readsAs_joinItems hne blanks_nil blanks_nil ih
        simpa [compact, compactItems_eq] using hread
  | @object fields h ih =>
      by_cases hne : fields = []
      · subst hne
        exact readsAs_emptyObject
      · have hread := readsAs_joinFields hne blanks_nil blanks_nil blanks_nil ih
        simpa [compact, compactFields_eq] using hread

theorem Standard.readsAs_spread
    (h : json.Standard)
    (depth : Nat) :
    ReadsAs (spread depth json) json := by
  induction h generalizing depth with
  | null => exact readsAs_word rfl fun _ => rfl
  | bool flag => exact readsAs_bool flag
  | number hn => exact readsAs_number hn
  | string text => exact readsAs_string text
  | @array items h ih =>
      cases items with
      | nil => exact readsAs_emptyArray
      | cons item items =>
          have hread := readsAs_joinItems (List.cons_ne_nil item items)
            (blanks_newLine (depth + 1)) (blanks_newLine depth)
            fun i hi => ih i hi (depth + 1)
          rwa [← spreadItems_eq] at hread
  | @object fields h ih =>
      cases fields with
      | nil => exact readsAs_emptyObject
      | cons f fields =>
          have hread := readsAs_joinFields (List.cons_ne_nil f fields)
            (blanks_newLine (depth + 1)) blanks_space (blanks_newLine depth)
            fun i hi => ih i hi (depth + 1)
          rwa [← spreadFields_eq] at hread

/-- A text that reads as a tree, and nothing else, is parsed as the tree. -/
theorem ReadsAs.parse_ofList
    {text : List Char}
    (h : ReadsAs text json) :
    parse (String.ofList text) = .ok json := by
  have hread := h.read [] [] endsNumber_nil
  rw [List.append_nil] at hread
  have hrun : run (.wantValue []) (ofText text) = .ok (json, []) := by
    rw [show run (.wantValue []) (ofText text) = (wantValue []).read text from rfl, hread]
    rw [complete, resume, ofText_eq_nil rfl]
  rw [parse, String.toList_ofList, hrun]

/-- A tree is read back from its text in either layout. -/
theorem parse_written
    (h : json.Standard)
    (pretty : Bool) :
    parse (json.written pretty) = .ok json := by
  cases pretty with
  | true => exact (h.readsAs_spread 0).parse_ofList
  | false => exact h.readsAs_compact.parse_ofList

end Written

end Json

end TaskTree
