import TaskTree.Source.Forms

/-!
# Reading from the start of a text

`Progress.read` takes every token of a text into account.  The first token is
known from the first characters: separators are dropped, a bracket is a token,
and so is a string literal or a run of symbol characters that is not followed
by a further one.

**Results.**
* `Token.ofText_eq_cons`: the tokens of a text are the first one and those of the rest.
* `Progress.read_run`, `read_literal`, `read_opening`, `read_closing`: one token is read.
-/

namespace TaskTree

section Characters

variable {c : Char}

theorem isSymbolChar_iff :
    isSymbolChar c = true ↔ isSeparator c = false ∧ isDelimiter c = false := by
  simp [isSymbolChar]

/-- A symbol character is none of the others. -/
theorem ne_of_isSymbolChar
    (h : isSymbolChar c = true) :
    c ≠ '(' ∧ c ≠ ')' ∧ c ≠ '[' ∧ c ≠ ']' ∧ c ≠ '{' ∧ c ≠ '}' ∧ c ≠ '"' ∧ c ≠ ';' := by
  obtain ⟨-, hdelimiter⟩ := isSymbolChar_iff.1 h
  simpa [isDelimiter, and_assoc] using hdelimiter

/-- No comment starts with a symbol character. -/
theorem ne_semicolon_of_isSymbolChar
    (h : isSymbolChar c = true) :
    c ≠ ';' := by
  obtain ⟨-, -, -, -, -, -, -, hcomment⟩ := ne_of_isSymbolChar h
  exact hcomment

/-- Digits are symbol characters. -/
theorem isSymbolChar_of_isDigit
    (h : c.isDigit = true) :
    isSymbolChar c = true := by
  rw [isSymbolChar_iff]
  constructor
  · refine Bool.eq_false_iff.2 fun hc => ?_
    simp only [isSeparator, Bool.or_eq_true, beq_iff_eq] at hc
    rcases hc with ((((rfl | rfl) | rfl) | rfl) | rfl) | rfl <;> exact absurd h (by decide)
  · refine Bool.eq_false_iff.2 fun hc => ?_
    simp only [isDelimiter, Bool.or_eq_true, beq_iff_eq] at hc
    rcases hc with ((((((rfl | rfl) | rfl) | rfl) | rfl) | rfl) | rfl) | rfl <;>
      exact absurd h (by decide)

end Characters

/-- A non-empty run of symbol characters. -/
def IsRun (chars : List Char) : Prop :=
  chars ≠ [] ∧ ∀ c ∈ chars, isSymbolChar c = true

instance (chars : List Char) : Decidable (IsRun chars) :=
  decidable_of_iff (chars ≠ [] ∧ chars.all isSymbolChar = true) (by simp [IsRun])

/-- A text that does not go on with a symbol character, so that a run before it ends there. -/
def EndsRun (s : List Char) : Prop :=
  ∀ c ∈ s.head?, isSymbolChar c = false

@[simp] theorem endsRun_nil :
    EndsRun [] := by
  simp [EndsRun]

@[simp] theorem endsRun_cons
    {c : Char} {s : List Char} :
    EndsRun (c :: s) ↔ isSymbolChar c = false := by
  simp [EndsRun]

theorem takeWhile_run
    {run rest : List Char}
    (hrun : ∀ c ∈ run, isSymbolChar c = true)
    (hrest : EndsRun rest) :
    (run ++ rest).takeWhile isSymbolChar = run := by
  rw [List.takeWhile_append_of_pos hrun]
  cases rest with
  | nil => simp
  | cons c rest => simp [endsRun_cons.1 hrest]

theorem dropWhile_run
    {run rest : List Char}
    (hrun : ∀ c ∈ run, isSymbolChar c = true)
    (hrest : EndsRun rest) :
    (run ++ rest).dropWhile isSymbolChar = rest := by
  rw [List.dropWhile_append_of_pos hrun]
  cases rest with
  | nil => simp
  | cons c rest => simp [endsRun_cons.1 hrest]

/-- A run goes on as long as there are symbol characters. -/
theorem isRun_takeWhile
    {c : Char}
    (hc : isSymbolChar c = true)
    (s : List Char) :
    IsRun (c :: s.takeWhile isSymbolChar) :=
  ⟨List.cons_ne_nil _ _, List.forall_mem_cons.2 ⟨hc, List.all_eq_true.1 List.all_takeWhile⟩⟩

theorem endsRun_dropWhile
    (s : List Char) :
    EndsRun (s.dropWhile isSymbolChar) := by
  intro c hc
  have hhead := List.head?_dropWhile_not isSymbolChar s
  rwa [Option.mem_def.1 hc] at hhead

section Separators

variable {c : Char} {s : List Char}

theorem skipSeparators_separator
    (h : isSeparator c = true) :
    skipSeparators (c :: s) = skipSeparators s := by
  rw [skipSeparators, if_pos h]

theorem skipSeparators_token
    (hseparator : isSeparator c = false)
    (hcomment : c ≠ ';') :
    skipSeparators (c :: s) = c :: s := by
  rw [skipSeparators, if_neg (by simp [hseparator]), if_neg hcomment]

mutual

/-- Separators and comments are skipped up to the first character of a token. -/
theorem token_of_skipSeparators :
    ∀ {s rest : List Char} {c : Char}, skipSeparators s = c :: rest →
      isSeparator c = false ∧ c ≠ ';'
  | [], _, _, h => by
      rw [skipSeparators] at h
      cases h
  | d :: s, rest, c, h => by
      rw [skipSeparators] at h
      split at h
      · exact token_of_skipSeparators h
      · next hseparator =>
        split at h
        · exact token_of_skipComment h
        · next hcomment =>
          cases h
          exact ⟨Bool.eq_false_iff.2 hseparator, hcomment⟩

theorem token_of_skipComment :
    ∀ {s rest : List Char} {c : Char}, skipComment s = c :: rest →
      isSeparator c = false ∧ c ≠ ';'
  | [], _, _, h => by
      rw [skipComment] at h
      cases h
  | d :: s, rest, c, h => by
      rw [skipComment] at h
      split at h
      · exact token_of_skipSeparators h
      · exact token_of_skipComment h

end

/-- Where a token starts, there is nothing to skip. -/
theorem skipSeparators_start
    {s rest : List Char} {c : Char}
    (h : skipSeparators s = c :: rest) :
    skipSeparators (c :: rest) = c :: rest := by
  obtain ⟨hseparator, hcomment⟩ := token_of_skipSeparators h
  exact skipSeparators_token hseparator hcomment

end Separators

/-- The bracket that opens a collection. -/
def Bracket.opener : Bracket → Char
  | .round => '('
  | .square => '['
  | .curly => '{'

/-- The bracket that closes a collection. -/
def Bracket.closer : Bracket → Char
  | .round => ')'
  | .square => ']'
  | .curly => '}'

/-- A closing bracket is neither a separator nor the start of a comment, and it ends a run. -/
theorem Bracket.closer_separates
    (bracket : Bracket) :
    isSeparator bracket.closer = false ∧ bracket.closer ≠ ';' ∧
      isSymbolChar bracket.closer = false := by
  cases bracket <;> decide

theorem endsRun_closer
    (bracket : Bracket) (s : List Char) :
    EndsRun (bracket.closer :: s) :=
  endsRun_cons.2 bracket.closer_separates.2.2

theorem endsRun_blank
    (s : List Char) :
    EndsRun (' ' :: s) :=
  endsRun_cons.2 rfl

namespace Token

theorem ofText_eq_nil
    {s : List Char}
    (h : skipSeparators s = []) :
    ofText s = [] := by
  refine Text.pieces_eq_nil ?_
  unfold scan
  split
  · rfl
  · next hskip => rw [h] at hskip; cases hskip

/-- The tokens of a text are the one at its first character and those of what follows it. -/
theorem ofText_eq_cons
    {s rest : List Char} {c : Char}
    (h : skipSeparators s = c :: rest) :
    ofText s = ⟨(Lexeme.next c rest).1, c :: rest⟩ :: ofText (Lexeme.next c rest).2 := by
  have hscan : scan s = some ⟨⟨(Lexeme.next c rest).1, c :: rest⟩, _, length_rest_lt h⟩ := by
    unfold scan
    split
    · next hskip => rw [h] at hskip; cases hskip
    · next hskip => rw [h] at hskip; cases hskip; rfl
  exact Text.pieces_eq_cons hscan

/-- Separators before the first token make no difference. -/
theorem ofText_congr
    {s t : List Char}
    (h : skipSeparators s = skipSeparators t) :
    ofText s = ofText t := by
  cases ht : skipSeparators t with
  | nil => rw [ofText_eq_nil (h.trans ht), ofText_eq_nil ht]
  | cons c rest => rw [ofText_eq_cons (h.trans ht), ofText_eq_cons ht]

end Token

/-- A run of symbol characters is one token. -/
theorem Lexeme.next_symbolChar
    {c : Char} {s : List Char} {value : Value}
    (hc : isSymbolChar c = true)
    (hvalue : Atom.value (c :: s.takeWhile isSymbolChar) = .ok value) :
    Lexeme.next c s = (.atom value, s.dropWhile isSymbolChar) := by
  obtain ⟨h1, h2, h3, h4, h5, h6, h7, -⟩ := ne_of_isSymbolChar hc
  unfold Lexeme.next
  split
  case h_8 => simp only [hc, if_true, hvalue]
  all_goals contradiction

namespace Progress

/-- What has been read after all tokens of a text. -/
def read (progress : Progress) (s : List Char) : Except ReadFailure Progress :=
  (Token.ofText s).foldlM step progress

section Read

variable {progress : Progress} {s rest : List Char}

@[simp] theorem read_nil :
    progress.read [] = .ok progress := by
  rw [read, Token.ofText_eq_nil (by simp [skipSeparators])]
  rfl

theorem read_separator
    {c : Char}
    (h : isSeparator c = true) :
    progress.read (c :: s) = progress.read s := by
  rw [read, Token.ofText_congr (skipSeparators_separator h)]
  rfl

theorem read_blank :
    progress.read (' ' :: s) = progress.read s :=
  read_separator rfl

/-- The first token is taken into account before the rest of the text. -/
theorem read_eq_bind
    {c : Char}
    (hseparator : isSeparator c = false)
    (hcomment : c ≠ ';') :
    progress.read (c :: s) =
      progress.step ⟨(Lexeme.next c s).1, c :: s⟩ >>= fun p => p.read (Lexeme.next c s).2 := by
  rw [read, Token.ofText_eq_cons (skipSeparators_token hseparator hcomment), List.foldlM_cons]
  rfl

/-- A run of symbol characters adds the value that it stands for. -/
theorem read_run
    {run : List Char} {value : Value}
    (hrun : IsRun run)
    (hrest : EndsRun rest)
    (hvalue : Atom.value run = .ok value) :
    progress.read (run ++ rest) = (progress.add value).read rest := by
  rcases hrun with ⟨hne, hchars⟩
  obtain ⟨c, run, rfl⟩ := List.exists_cons_of_ne_nil hne
  have hc : isSymbolChar c = true := hchars c List.mem_cons_self
  have htail : ∀ c ∈ run, isSymbolChar c = true := fun c hc => hchars c (List.mem_cons_of_mem _ hc)
  have hnext : Lexeme.next c (run ++ rest) = (.atom value, rest) := by
    rw [Lexeme.next_symbolChar hc (by rwa [takeWhile_run htail hrest]),
      dropWhile_run htail hrest]
  rw [List.cons_append,
    read_eq_bind (isSymbolChar_iff.1 hc).1 (ne_semicolon_of_isSymbolChar hc), hnext]
  rfl

/-- A string literal adds its string. -/
theorem read_literal
    (text : List Char) :
    progress.read (Quoted.encode text ++ rest)
      = (progress.add (.string (String.ofList text))).read rest := by
  have hnext : Lexeme.next '"' (Quoted.escape text ++ '"' :: rest)
      = (.atom (.string (String.ofList text)), rest) := by
    simp [Lexeme.next, Quoted.decode_escape]
  rw [Quoted.encode, List.cons_append, List.append_assoc, read_eq_bind (by decide) (by decide),
    List.singleton_append, hnext]
  rfl

/-- An opening bracket opens a collection. -/
theorem read_opening
    (bracket : Bracket) :
    progress.read (bracket.opener :: s) =
      read { progress with
        unclosed := ⟨bracket, bracket.opener :: s, []⟩ :: progress.unclosed } s := by
  cases bracket <;> exact read_eq_bind (by decide) (by decide)

/-- The closing bracket of the innermost collection adds its value. -/
theorem read_closing
    {forms : List Value} {inner : OpenCollection} {outer : List OpenCollection} {value : Value}
    (hvalue : inner.close = .ok value) :
    read ⟨forms, inner :: outer⟩ (inner.bracket.closer :: rest)
      = (add ⟨forms, outer⟩ value).read rest := by
  have hstep : step ⟨forms, inner :: outer⟩
      ⟨.closing inner.bracket, inner.bracket.closer :: rest⟩ = .ok (add ⟨forms, outer⟩ value) := by
    simp [step, hvalue]
  have hnext : Lexeme.next inner.bracket.closer rest = (.closing inner.bracket, rest) := by
    cases inner.bracket <;> rfl
  obtain ⟨hseparator, hcomment, -⟩ := inner.bracket.closer_separates
  rw [read_eq_bind hseparator hcomment, hnext, hstep]
  rfl

end Read

end Progress

end TaskTree
