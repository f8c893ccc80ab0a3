import TaskTree.Proofs.Source.Forms

/-!
# The grammar of source texts

A source text is split into terminals: brackets, string literals, and atoms, the
longest runs of symbol characters.  Separators and comments stand between them.
A sequence of terminals derives a sequence of values, with one rule for each kind
of form.  Both levels are stated here without the functions that read a text.

**Results.**
* `Quoted.decode_eq_ok_iff`: the texts of string literals.
* `Splits.begins`, `Splits.lexemes`, `Token.exists_splits`: the tokens of a text are its
  terminals, whatever stands on the lines after it.
* `Derives.foldlM`, `Progress.Covers.foldlM`: reading tokens adds the values that their
  terminals derive, and no others.
* `Value.readAll_eq_ok_iff_derives`: a text is read as some values exactly if its
  terminals derive them.
-/

namespace TaskTree

section Grammar

/-- The letters that may follow a backslash, and the characters that they stand for. -/
def Quoted.escapes : List (Char × Char) :=
  [('"', '"'), ('\\', '\\'), ('n', '\n'), ('r', '\r'), ('t', '\t')]

/-- What stands between the quotes of a string literal, and the text that it stands for. -/
inductive Quoted.Spells : List Char → List Char → Prop
  | nil : Spells [] []
  | plain
      {c : Char} {body text : List Char}
      (hquote : c ≠ '"')
      (hslash : c ≠ '\\')
      (h : Spells body text) :
      Spells (c :: body) (c :: text)
  | escape
      {letter c : Char} {body text : List Char}
      (hletter : (letter, c) ∈ escapes)
      (h : Spells body text) :
      Spells ('\\' :: letter :: body) (c :: text)

/-- A token as the grammar sees it: an atom is a run of symbol characters, a literal is known by
its text. -/
inductive Terminal where
  | opening (bracket : Bracket)
  | closing (bracket : Bracket)
  | literal (text : List Char)
  | atom (run : List Char)

/-- The text consists of the terminals, with separators and comments between them. -/
inductive Splits : List Char → List Terminal → Prop
  | nil : Splits [] []
  | separator
      {c : Char} {s : List Char} {ts : List Terminal}
      (hseparator : isSeparator c = true)
      (h : Splits s ts) :
      Splits (c :: s) ts
  | comment
      {line s : List Char} {ts : List Terminal}
      (hline : '\n' ∉ line)
      (h : Splits s ts) :
      Splits (';' :: (line ++ '\n' :: s)) ts
  | lastComment
      {line : List Char}
      (hline : '\n' ∉ line) :
      Splits (';' :: line) []
  | opening
      {bracket : Bracket} {s : List Char} {ts : List Terminal}
      (h : Splits s ts) :
      Splits (bracket.opener :: s) (.opening bracket :: ts)
  | closing
      {bracket : Bracket} {s : List Char} {ts : List Terminal}
      (h : Splits s ts) :
      Splits (bracket.closer :: s) (.closing bracket :: ts)
  | literal
      {body text s : List Char} {ts : List Terminal}
      (hbody : Quoted.Spells body text)
      (h : Splits s ts) :
      Splits ('"' :: (body ++ '"' :: s)) (.literal text :: ts)
  | atom
      {run s : List Char} {ts : List Terminal}
      (hrun : IsRun run)
      (hlongest : EndsRun s)
      (h : Splits s ts) :
      Splits (run ++ s) (.atom run :: ts)

/-- The value of a pair of brackets with the given values between them. -/
inductive Bracket.Encloses : Bracket → List Value → Value → Prop
  | list
      (items : List Value) :
      Encloses .round items (.list items)
  | vector
      (items : List Value) :
      Encloses .square items (.vector items)
  | map
      (pairs : List (Value × Value)) :
      Encloses .curly (pairs.flatMap fun e => [e.1, e.2]) (.map (Entries.ofList pairs))

/-- The terminals are the forms of the values. -/
inductive Derives : List Terminal → List Value → Prop
  | nil : Derives [] []
  | atom
      {run : List Char} {value : Value} {ts : List Terminal} {values : List Value}
      (hvalue : Value.read (String.ofList run) = .ok value)
      (h : Derives ts values) :
      Derives (.atom run :: ts) (value :: values)
  | literal
      {text : List Char} {ts : List Terminal} {values : List Value}
      (h : Derives ts values) :
      Derives (.literal text :: ts) (.string (String.ofList text) :: values)
  | collection
      {bracket : Bracket} {inside ts : List Terminal} {items values : List Value} {value : Value}
      (hitems : Derives inside items)
      (hvalue : bracket.Encloses items value)
      (h : Derives ts values) :
      Derives (.opening bracket :: (inside ++ .closing bracket :: ts)) (value :: values)

end Grammar

section Literals

namespace Quoted

theorem mem_escapes_iff
    {letter c : Char} :
    (letter, c) ∈ escapes ↔ unescape? letter = some c := by
  constructor
  · intro h
    simp only [escapes, List.mem_cons, Prod.mk.injEq, List.not_mem_nil, or_false] at h
    rcases h with ⟨rfl, rfl⟩ | ⟨rfl, rfl⟩ | ⟨rfl, rfl⟩ | ⟨rfl, rfl⟩ | ⟨rfl, rfl⟩ <;> rfl
  · intro h
    unfold unescape? at h
    split at h <;> cases h <;> decide

/-- A literal is read as what its body spells, up to its closing quote. -/
theorem decode_eq_ok_iff
    {s text rest : List Char} :
    decode s = .ok (text, rest) ↔ ∃ body, s = body ++ '"' :: rest ∧ Spells body text := by
  constructor
  · intro h
    fun_induction decode s generalizing text with
    | case1 => cases h
    | case2 => cases h; exact ⟨[], rfl, .nil⟩
    | case3 => cases h
    | case4 => cases h
    | case5 letter s decoded hletter text after hdecode _ ih =>
        cases h
        obtain ⟨body, rfl, hbody⟩ := ih hdecode
        exact ⟨_, rfl, .escape (mem_escapes_iff.2 hletter) hbody⟩
    | case6 => cases h
    | case7 c s hquote hslash text after hdecode ih =>
        cases h
        obtain ⟨body, rfl, hbody⟩ := ih hdecode
        exact ⟨_, rfl, .plain hquote hslash hbody⟩
    | case8 => cases h
  · rintro ⟨body, rfl, hbody⟩
    induction hbody with
    | nil => exact decode_quote rest
    | plain hquote hslash _ ih =>
        rw [List.cons_append, decode_plain hquote hslash, ih]
        rfl
    | escape hletter _ ih =>
        rw [List.cons_append, List.cons_append, decode_letter (mem_escapes_iff.1 hletter), ih]
        rfl

end Quoted

end Literals

section Splitting

theorem skipComment_line
    {line : List Char}
    (hline : '\n' ∉ line)
    (s : List Char) :
    skipComment (line ++ '\n' :: s) = skipSeparators s := by
  induction line with
  | nil => simp [skipComment]
  | cons c line ih =>
      obtain ⟨hc, hline⟩ := not_or.1 (List.mem_cons.not.1 hline)
      rw [List.cons_append, skipComment, if_neg (Ne.symm hc), ih hline]

theorem skipComment_lastLine
    {line : List Char}
    (hline : '\n' ∉ line) :
    skipComment line = [] := by
  induction line with
  | nil => rfl
  | cons c line ih =>
      obtain ⟨hc, hline⟩ := not_or.1 (List.mem_cons.not.1 hline)
      rw [skipComment, if_neg (Ne.symm hc), ih hline]

/-- Nothing has no terminals. -/
theorem Splits.eq_nil
    {ts : List Terminal}
    (h : Splits [] ts) :
    ts = [] := by
  generalize hs : ([] : List Char) = s at h
  cases h with
  | nil => rfl
  | atom hrun _ _ => exact absurd (List.append_eq_nil_iff.1 hs.symm).1 hrun.1
  | _ => cases hs

/-- What separates at the start of a text does not change its terminals. -/
theorem Splits.of_skipSeparators
    {s : List Char} {ts : List Terminal}
    (h : Splits (skipSeparators s) ts) :
    Splits s ts := by
  match s with
  | [] => exact h
  | c :: s =>
      rw [skipSeparators] at h
      split at h
      · next hseparator => exact .separator hseparator h.of_skipSeparators
      · split at h
        · next hcomment =>
          subst hcomment
          by_cases hmem : '\n' ∈ s
          · obtain ⟨line, rest, rfl, hline⟩ := List.eq_append_cons_of_mem hmem
            rw [skipComment_line hline] at h
            exact .comment hline h.of_skipSeparators
          · rw [skipComment_lastLine hmem] at h
            obtain rfl := h.eq_nil
            exact .lastComment hmem
        · exact h
termination_by s.length

end Splitting

section Lexemes

/-- A run of symbol characters that stands for nothing breaks off the tokens. -/
theorem Lexeme.next_symbolChar_error
    {c : Char} {s : List Char} {failure : ReadFailure}
    (hc : isSymbolChar c = true)
    (hvalue : Atom.value (c :: s.takeWhile isSymbolChar) = .error failure) :
    Lexeme.next c s
      = (.broken { failure with rest := failure.rest ++ s.dropWhile isSymbolChar }, []) := by
  obtain ⟨h1, h2, h3, h4, h5, h6, h7, -⟩ := ne_of_isSymbolChar hc
  unfold Lexeme.next
  split
  case h_8 => simp only [hc, if_true, hvalue]
  all_goals contradiction

/-- A run is read, on its own, as the value that it stands for. -/
theorem Value.read_run_iff
    {run : List Char} {value : Value}
    (hrun : IsRun run) :
    Value.read (String.ofList run) = .ok value ↔ Atom.value run = .ok value := by
  rw [Value.read_eq_ok_iff, Value.readAll_eq_ok_iff, String.toList_ofList]
  cases hvalue : Atom.value run with
  | ok found =>
      have hread : Progress.start.read (run ++ []) = (Progress.start.add found).read [] :=
        Progress.read_run hrun endsRun_nil hvalue
      rw [List.append_nil, Progress.read_nil] at hread
      rw [hread]
      simp [Progress.start, Progress.add]
  | error failure =>
      obtain ⟨c, run, rfl⟩ := List.exists_cons_of_ne_nil hrun.1
      obtain ⟨hc, htail⟩ := List.forall_mem_cons.1 hrun.2
      have hcomment := ne_semicolon_of_isSymbolChar hc
      have htake : run.takeWhile isSymbolChar = run := by
        simpa using takeWhile_run htail endsRun_nil
      have hnext := @Lexeme.next_symbolChar_error c run _ hc (by rwa [htake])
      rw [Progress.read_eq_bind (isSymbolChar_iff.1 hc).1 hcomment, hnext]
      simp [Progress.step, bind, Except.bind]

/-- What a terminal is for the reader.  An atom that cannot be read is broken. -/
def Terminal.lexeme : Terminal → Lexeme
  | .opening bracket => .opening bracket
  | .closing bracket => .closing bracket
  | .literal text => .atom (.string (String.ofList text))
  | .atom run =>
      match Value.read (String.ofList run) with
      | .ok value => .atom value
      | .error error => .broken ⟨error.fault, []⟩

/-- An atom stands for a value. -/
def Terminal.Readable : Terminal → Prop
  | .atom run => ∃ value, Value.read (String.ofList run) = .ok value
  | _ => True

theorem Bracket.opener_separates
    (bracket : Bracket) :
    isSeparator bracket.opener = false ∧ bracket.opener ≠ ';' := by
  cases bracket <;> decide

theorem Lexeme.next_opener
    (bracket : Bracket) (s : List Char) :
    Lexeme.next bracket.opener s = (.opening bracket, s) := by
  cases bracket <;> rfl

theorem Lexeme.next_closer
    (bracket : Bracket) (s : List Char) :
    Lexeme.next bracket.closer s = (.closing bracket, s) := by
  cases bracket <;> rfl

/-- A text that is empty or starts with the end of a line, which ends every run and every comment
before it. -/
def EndsLine (s : List Char) : Prop :=
  ∀ c ∈ s.head?, c = '\n'

theorem EndsLine.skipComment_line
    {s : List Char}
    (h : EndsLine s)
    {line : List Char}
    (hline : '\n' ∉ line) :
    skipComment (line ++ s) = skipSeparators s := by
  cases s with
  | nil =>
      rw [List.append_nil, skipComment_lastLine hline]
      rfl
  | cons c s =>
      obtain rfl : c = '\n' := h c rfl
      rw [TaskTree.skipComment_line hline, skipSeparators_separator rfl]

/-- A run that ends before the rest of a text ends there whatever stands on the next lines. -/
theorem EndsRun.append
    {s more : List Char}
    (h : EndsRun s)
    (hmore : EndsLine more) :
    EndsRun (s ++ more) := by
  cases s with
  | nil =>
      intro c hc
      rw [hmore c hc]
      rfl
  | cons c s => exact endsRun_cons.2 (endsRun_cons.1 h)

/-- The tokens of a text are those of the terminals, and then those of the rest. -/
def Token.Begins (s : List Char) (ts : List Terminal) (rest : List Char) : Prop :=
  ∃ tokens, tokens.map lexeme = ts.map Terminal.lexeme ∧ ofText s = tokens ++ ofText rest

namespace Token.Begins

variable {s s' rest : List Char} {t : Terminal} {ts : List Terminal}

/-- What separates at the start of a text makes no difference. -/
theorem congr
    (h : Token.Begins s ts rest)
    (hskip : skipSeparators s' = skipSeparators s) :
    Token.Begins s' ts rest := by
  obtain ⟨tokens, hlexemes, htokens⟩ := h
  exact ⟨tokens, hlexemes, (Token.ofText_congr hskip).trans htokens⟩

/-- A token at the start of a text comes before the tokens of what is left behind it. -/
theorem cons
    {c : Char}
    (h : Token.Begins s ts rest)
    (hseparator : isSeparator c = false)
    (hcomment : c ≠ ';')
    (hnext : Lexeme.next c s' = (t.lexeme, s)) :
    Token.Begins (c :: s') (t :: ts) rest := by
  obtain ⟨tokens, hlexemes, htokens⟩ := h
  refine ⟨⟨t.lexeme, c :: s'⟩ :: tokens, by rw [List.map_cons, List.map_cons, hlexemes], ?_⟩
  rw [Token.ofText_eq_cons (skipSeparators_token hseparator hcomment), hnext, htokens,
    List.cons_append]

end Token.Begins

/-- The tokens of a text are its terminals, if every atom stands for a value, whatever stands on
the lines after it. -/
theorem Splits.begins
    {s : List Char} {ts : List Terminal}
    (h : Splits s ts)
    (hreadable : ∀ t ∈ ts, t.Readable)
    {more : List Char}
    (hmore : EndsLine more) :
    Token.Begins (s ++ more) ts more := by
  induction h with
  | nil => exact ⟨[], rfl, rfl⟩
  | separator hseparator _ ih => exact (ih hreadable).congr (skipSeparators_separator hseparator)
  | @comment line s ts hline _ ih =>
      refine (ih hreadable).congr ?_
      rw [List.cons_append, List.append_assoc, List.cons_append, skipSeparators,
        if_neg (by decide), if_pos rfl, skipComment_line hline]
  | @lastComment line hline =>
      -- the comment ends where the rest begins, or with the text if there is no rest
      have hrest : Token.Begins more [] more := ⟨[], rfl, rfl⟩
      refine hrest.congr ?_
      rw [List.cons_append, skipSeparators, if_neg (by decide), if_pos rfl,
        hmore.skipComment_line hline]
  | @opening bracket s ts _ ih =>
      obtain ⟨-, hrest⟩ := List.forall_mem_cons.1 hreadable
      obtain ⟨hseparator, hcomment⟩ := bracket.opener_separates
      exact (ih hrest).cons hseparator hcomment (Lexeme.next_opener bracket _)
  | @closing bracket s ts _ ih =>
      obtain ⟨-, hrest⟩ := List.forall_mem_cons.1 hreadable
      obtain ⟨hseparator, hcomment, -⟩ := bracket.closer_separates
      exact (ih hrest).cons hseparator hcomment (Lexeme.next_closer bracket _)
  | @literal body text s ts hbody _ ih =>
      obtain ⟨-, hrest⟩ := List.forall_mem_cons.1 hreadable
      have hdecode :=
        Quoted.decode_eq_ok_iff.2 ⟨body, (rfl : _ = body ++ '"' :: (s ++ more)), hbody⟩
      have hnext : Lexeme.next '"' (body ++ '"' :: (s ++ more))
          = ((Terminal.literal text).lexeme, s ++ more) := by
        simp [Lexeme.next, hdecode, Terminal.lexeme]
      rw [List.cons_append, List.append_assoc, List.cons_append]
      exact (ih hrest).cons (by decide) (by decide) hnext
  | @atom run s ts hrun hlongest _ ih =>
      obtain ⟨⟨value, hread⟩, hrest⟩ := List.forall_mem_cons.1 hreadable
      have hvalue := (Value.read_run_iff hrun).1 hread
      have hends := hlongest.append hmore
      rcases hrun with ⟨hne, hchars⟩
      obtain ⟨c, run, rfl⟩ := List.exists_cons_of_ne_nil hne
      obtain ⟨hc, htail⟩ := List.forall_mem_cons.1 hchars
      have hcomment := ne_semicolon_of_isSymbolChar hc
      have hnext : Lexeme.next c (run ++ (s ++ more))
          = ((Terminal.atom (c :: run)).lexeme, s ++ more) := by
        rw [Lexeme.next_symbolChar hc (by rwa [takeWhile_run htail hends]),
          dropWhile_run htail hends]
        simp only [Terminal.lexeme, hread]
      rw [List.cons_append, List.cons_append, List.append_assoc]
      exact (ih hrest).cons (isSymbolChar_iff.1 hc).1 hcomment hnext

/-- The tokens of a text are its terminals, if every atom stands for a value. -/
theorem Splits.lexemes
    {s : List Char} {ts : List Terminal}
    (h : Splits s ts)
    (hreadable : ∀ t ∈ ts, t.Readable) :
    (Token.ofText s).map Token.lexeme = ts.map Terminal.lexeme := by
  have hend : EndsLine [] := by simp [EndsLine]
  have hnil : Token.ofText [] = [] := Token.ofText_eq_nil rfl
  obtain ⟨tokens, hlexemes, htokens⟩ := h.begins hreadable hend
  rw [List.append_nil, hnil, List.append_nil] at htokens
  rw [htokens, hlexemes]

/-- A run of symbol characters that stands for a value is an atom in front of the rest. -/
theorem Lexeme.exists_atom
    {c : Char} {s : List Char}
    (hc : isSymbolChar c = true)
    (hbroken : ∀ failure, (Lexeme.next c s).1 ≠ .broken failure) :
    ∃ t : Terminal, t.lexeme = (Lexeme.next c s).1 ∧
      ∀ ts, Splits (Lexeme.next c s).2 ts → Splits (c :: s) (t :: ts) := by
  have hrun := isRun_takeWhile hc s
  have hlongest := endsRun_dropWhile s
  cases hvalue : Atom.value (c :: s.takeWhile isSymbolChar) with
  | error failure =>
      rw [Lexeme.next_symbolChar_error hc hvalue] at hbroken
      exact absurd rfl (hbroken _)
  | ok value =>
      rw [Lexeme.next_symbolChar hc hvalue]
      refine ⟨.atom (c :: s.takeWhile isSymbolChar), ?_, fun ts h => ?_⟩
      · simp only [Terminal.lexeme, (Value.read_run_iff hrun).2 hvalue]
      · have hsplits := Splits.atom hrun hlongest h
        rwa [List.cons_append, List.takeWhile_append_dropWhile] at hsplits

/-- A token that is not broken is a terminal in front of the rest of the text. -/
theorem Lexeme.exists_terminal
    {c : Char} {s : List Char}
    (hbroken : ∀ failure, (Lexeme.next c s).1 ≠ .broken failure) :
    ∃ t : Terminal, t.lexeme = (Lexeme.next c s).1 ∧
      ∀ ts, Splits (Lexeme.next c s).2 ts → Splits (c :: s) (t :: ts) := by
  by_cases hc : isSymbolChar c = true
  · exact Lexeme.exists_atom hc hbroken
  · revert hbroken
    unfold Lexeme.next
    split
    all_goals intro hbroken
    case h_1 => exact ⟨.opening .round, rfl, fun _ h => @Splits.opening .round _ _ h⟩
    case h_2 => exact ⟨.opening .square, rfl, fun _ h => @Splits.opening .square _ _ h⟩
    case h_3 => exact ⟨.opening .curly, rfl, fun _ h => @Splits.opening .curly _ _ h⟩
    case h_4 => exact ⟨.closing .round, rfl, fun _ h => @Splits.closing .round _ _ h⟩
    case h_5 => exact ⟨.closing .square, rfl, fun _ h => @Splits.closing .square _ _ h⟩
    case h_6 => exact ⟨.closing .curly, rfl, fun _ h => @Splits.closing .curly _ _ h⟩
    case h_7 =>
      split
      · next text rest hdecode =>
        obtain ⟨body, rfl, hbody⟩ := Quoted.decode_eq_ok_iff.1 hdecode
        exact ⟨.literal text, rfl, fun _ h => .literal hbody h⟩
      · next failure hdecode =>
        simp only [hdecode] at hbroken
        exact absurd rfl (hbroken failure)
    case h_8 =>
      rw [if_neg hc] at hbroken
      exact absurd rfl (hbroken ⟨.unexpectedCharacter, c :: s⟩)

/-- A text whose tokens are not broken is split into terminals. -/
theorem Token.exists_splits
    (s : List Char)
    (hbroken : ∀ token ∈ Token.ofText s, ∀ failure, token.lexeme ≠ .broken failure) :
    ∃ ts, Splits s ts ∧ (Token.ofText s).map Token.lexeme = ts.map Terminal.lexeme := by
  cases hskip : skipSeparators s with
  | nil =>
      refine ⟨[], Splits.of_skipSeparators ?_, by rw [Token.ofText_eq_nil hskip]; rfl⟩
      rw [hskip]
      exact .nil
  | cons c rest =>
      rw [Token.ofText_eq_cons hskip] at hbroken ⊢
      obtain ⟨hfirst, hrest⟩ := List.forall_mem_cons.1 hbroken
      obtain ⟨t, hlexeme, ht⟩ := Lexeme.exists_terminal hfirst
      obtain ⟨ts, hsplits, hlexemes⟩ := Token.exists_splits (Lexeme.next c rest).2 hrest
      refine ⟨t :: ts, Splits.of_skipSeparators ?_, ?_⟩
      · rw [hskip]
        exact ht ts hsplits
      · rw [List.map_cons, List.map_cons, hlexeme, hlexemes]
termination_by s.length
decreasing_by exact Token.length_rest_lt hskip

end Lexemes

section Derivations

theorem Derives.append
    {ts ts' : List Terminal} {values values' : List Value}
    (h : Derives ts values)
    (h' : Derives ts' values') :
    Derives (ts ++ ts') (values ++ values') := by
  induction h with
  | nil => exact h'
  | atom hvalue _ ih => exact .atom hvalue ih
  | literal _ ih => exact .literal ih
  | collection hitems hvalue _ _ ih =>
      rw [List.cons_append, List.append_assoc]
      exact .collection hitems hvalue ih

/-- Atoms that occur in a derivation stand for values. -/
theorem Derives.readable
    {ts : List Terminal} {values : List Value}
    (h : Derives ts values) :
    ∀ t ∈ ts, t.Readable := by
  induction h with
  | nil => exact List.forall_mem_nil _
  | atom hvalue _ ih => exact List.forall_mem_cons.2 ⟨⟨_, hvalue⟩, ih⟩
  | literal _ ih => exact List.forall_mem_cons.2 ⟨trivial, ih⟩
  | @collection bracket inside ts _ _ _ _ _ _ ihItems ih =>
      have hrest : ∀ t ∈ Terminal.closing bracket :: ts, t.Readable :=
        List.forall_mem_cons.2 ⟨trivial, ih⟩
      exact List.forall_mem_cons.2 ⟨trivial, List.forall_mem_append.2 ⟨ihItems, hrest⟩⟩

/-- A collection closes with the value that its brackets enclose. -/
theorem OpenCollection.close_eq_ok_iff
    {collection : OpenCollection} {value : Value} :
    collection.close = .ok value ↔ collection.bracket.Encloses collection.items.reverse value := by
  rcases collection with ⟨bracket, start, items⟩
  cases bracket with
  | round =>
      constructor
      · intro h
        cases h
        exact .list _
      · intro h
        cases h
        rfl
  | square =>
      constructor
      · intro h
        cases h
        exact .vector _
      · intro h
        cases h
        rfl
  | curly =>
      constructor
      · intro h
        simp only [OpenCollection.close] at h
        split at h
        · next heven =>
          cases h
          have hmap := Bracket.Encloses.map (pairUp items.reverse)
          rwa [Progress.flatMap_pairUp heven] at hmap
        · cases h
      · intro h
        generalize hitems : items.reverse = reversed at h
        cases h with
        | map pairs =>
            rw [List.reverse_eq_iff] at hitems
            rw [hitems]
            exact Progress.close_map pairs start

end Derivations

section Steps

namespace Progress

variable {progress progress' : Progress} {token : Token}

theorem step_opening
    {bracket : Bracket}
    (h : token.lexeme = .opening bracket) :
    progress.step token
      = .ok ⟨progress.forms, ⟨bracket, token.start, []⟩ :: progress.unclosed⟩ := by
  simp only [step, h]

theorem step_closing
    {forms : List Value} {inner : OpenCollection} {outer : List OpenCollection} {value : Value}
    (h : token.lexeme = .closing inner.bracket)
    (hvalue : inner.close = .ok value) :
    step ⟨forms, inner :: outer⟩ token = .ok (add ⟨forms, outer⟩ value) := by
  simp only [step, h, if_true, hvalue]

theorem step_atom
    {value : Value}
    (h : token.lexeme = .atom value) :
    progress.step token = .ok (progress.add value) := by
  simp only [step, h]

/-- Values are added to the finished forms when nothing is open. -/
theorem addAll_closed
    {forms values : List Value} :
    addAll ⟨forms, []⟩ values = ⟨values.reverse ++ forms, []⟩ := by
  induction values generalizing forms with
  | nil => rfl
  | cons value values ih =>
      rw [addAll_cons]
      simp only [add, ih]
      simp

end Progress

/-- Reading the tokens of a derivation adds the values that are derived. -/
theorem Derives.foldlM
    {ts : List Terminal} {values : List Value}
    (h : Derives ts values)
    {tokens : List Token}
    (htokens : tokens.map Token.lexeme = ts.map Terminal.lexeme)
    (progress : Progress) :
    tokens.foldlM Progress.step progress = .ok (progress.addAll values) := by
  induction h generalizing tokens progress with
  | nil =>
      obtain rfl := List.map_eq_nil_iff.1 htokens
      rfl
  | atom hvalue _ ih =>
      obtain ⟨token, tokens, rfl, htoken, htokens⟩ := List.map_eq_cons_iff.1 htokens
      simp only [Terminal.lexeme, hvalue] at htoken
      rw [List.foldlM_cons, Progress.step_atom htoken, ok_bind_eq, ih htokens,
        Progress.addAll_cons]
  | literal _ ih =>
      obtain ⟨token, tokens, rfl, htoken, htokens⟩ := List.map_eq_cons_iff.1 htokens
      rw [List.foldlM_cons, Progress.step_atom htoken, ok_bind_eq, ih htokens,
        Progress.addAll_cons]
  | @collection bracket inside ts items values value _ hvalue _ ihItems ih =>
      obtain ⟨first, tokens, rfl, hfirst, htokens⟩ := List.map_eq_cons_iff.1 htokens
      rw [List.map_append] at htokens
      obtain ⟨between, tokens, rfl, hbetween, htokens⟩ := List.map_eq_append_iff.1 htokens
      obtain ⟨last, tokens, rfl, hlast, htokens⟩ := List.map_eq_cons_iff.1 htokens
      have hclose : OpenCollection.close ⟨bracket, first.start, items.reverse⟩ = .ok value :=
        OpenCollection.close_eq_ok_iff.2 (by simpa using hvalue)
      rw [List.foldlM_cons, Progress.step_opening hfirst, ok_bind_eq, List.foldlM_append,
        ihItems hbetween, ok_bind_eq, Progress.addAll_open, List.append_nil, List.foldlM_cons,
        Progress.step_closing hlast hclose, ok_bind_eq, ih htokens, Progress.addAll_cons]

/-- What has been read is derived from the terminals seen so far: the finished forms from those
before the outermost open bracket, the items of an open collection from those behind its
bracket. -/
inductive Progress.Covers : Progress → List Terminal → Prop
  | closed
      {forms : List Value} {ts : List Terminal}
      (h : Derives ts forms.reverse) :
      Covers ⟨forms, []⟩ ts
  | opened
      {forms : List Value} {inner : OpenCollection} {outer : List OpenCollection}
      {before inside : List Terminal}
      (houter : Covers ⟨forms, outer⟩ before)
      (hinside : Derives inside inner.items.reverse) :
      Covers ⟨forms, inner :: outer⟩ (before ++ .opening inner.bracket :: inside)

namespace Progress.Covers

variable {progress progress' : Progress} {ts : List Terminal}

theorem add
    {value : Value} {form : List Terminal}
    (h : progress.Covers ts)
    (hvalue : Derives form [value]) :
    (progress.add value).Covers (ts ++ form) := by
  cases h with
  | closed h =>
      refine .closed ?_
      rw [List.reverse_cons]
      exact h.append hvalue
  | opened houter hinside =>
      rw [List.append_assoc, List.cons_append]
      refine .opened houter ?_
      rw [List.reverse_cons]
      exact hinside.append hvalue

/-- One token keeps what has been read derived from the terminals. -/
theorem step
    {token : Token} {t : Terminal}
    (h : progress.Covers ts)
    (htoken : token.lexeme = t.lexeme)
    (hstep : progress.step token = .ok progress') :
    progress'.Covers (ts ++ [t]) := by
  cases t with
  | opening bracket =>
      rw [Progress.step_opening htoken] at hstep
      cases hstep
      exact .opened h .nil
  | closing bracket =>
      simp only [Progress.step, htoken, Terminal.lexeme] at hstep
      cases h with
      | closed h => cases hstep
      | @opened forms inner outer before inside houter hinside =>
          dsimp only at hstep
          split at hstep
          · next hbracket =>
            split at hstep
            · next value hclose =>
              cases hstep
              have hvalue := OpenCollection.close_eq_ok_iff.1 hclose
              rw [List.append_assoc, List.cons_append, ← hbracket]
              exact houter.add (.collection hinside hvalue .nil)
            · cases hstep
          · cases hstep
  | literal text =>
      rw [Progress.step_atom htoken] at hstep
      cases hstep
      exact h.add (.literal .nil)
  | atom run =>
      cases hread : Value.read (String.ofList run) with
      | ok value =>
          simp only [Terminal.lexeme, hread] at htoken
          rw [Progress.step_atom htoken] at hstep
          cases hstep
          exact h.add (.atom hread .nil)
      | error error =>
          simp only [Terminal.lexeme, hread] at htoken
          simp only [Progress.step, htoken] at hstep
          cases hstep

/-- So do all tokens of a text. -/
theorem foldlM
    {tokens : List Token} {ts' : List Terminal}
    (h : progress.Covers ts)
    (htokens : tokens.map Token.lexeme = ts'.map Terminal.lexeme)
    (hsteps : tokens.foldlM Progress.step progress = .ok progress') :
    progress'.Covers (ts ++ ts') := by
  induction tokens generalizing progress ts ts' with
  | nil =>
      obtain rfl := List.map_eq_nil_iff.1 htokens.symm
      cases hsteps
      rwa [List.append_nil]
  | cons token tokens ih =>
      obtain ⟨t, ts', rfl, ht, htokens⟩ := List.map_eq_cons_iff.1 htokens.symm
      rw [List.foldlM_cons] at hsteps
      obtain ⟨next, hnext, hsteps⟩ := ok_of_bind_eq_ok hsteps
      have hrest := ih (h.step ht.symm hnext) htokens.symm hsteps
      rwa [List.append_assoc] at hrest

end Progress.Covers

/-- A token that is taken into account is not broken. -/
theorem Progress.not_broken_of_foldlM
    {tokens : List Token} {progress progress' : Progress}
    (h : tokens.foldlM Progress.step progress = .ok progress') :
    ∀ token ∈ tokens, ∀ failure, token.lexeme ≠ .broken failure := by
  induction tokens generalizing progress with
  | nil => simp
  | cons token tokens ih =>
      rw [List.foldlM_cons] at h
      obtain ⟨next, hnext, h⟩ := ok_of_bind_eq_ok h
      refine List.forall_mem_cons.2 ⟨fun failure hbroken => ?_, ih h⟩
      simp only [Progress.step, hbroken] at hnext
      cases hnext

end Steps

/-- What has been read of a text, when nothing is open, is derived from its terminals. -/
theorem Progress.exists_derives_of_read
    {s : List Char} {values : List Value}
    (h : Progress.start.read s = .ok ⟨values.reverse, []⟩) :
    ∃ ts, Splits s ts ∧ Derives ts values := by
  obtain ⟨ts, hsplits, hlexemes⟩ := Token.exists_splits s (not_broken_of_foldlM h)
  have hstart : Progress.start.Covers [] := .closed .nil
  have hcovers := hstart.foldlM hlexemes h
  generalize hend : (⟨values.reverse, []⟩ : Progress) = progress at hcovers
  cases hcovers with
  | closed hderives =>
      cases hend
      rw [List.reverse_reverse] at hderives
      exact ⟨ts, hsplits, hderives⟩
  | opened _ _ => cases hend

/-- A text is read as some values exactly if it splits into terminals that derive them. -/
theorem Value.readAll_eq_ok_iff_derives
    {source : String} {values : List Value} :
    Value.readAll source = .ok values ↔
      ∃ ts, Splits source.toList ts ∧ Derives ts values := by
  rw [Value.readAll_eq_ok_iff]
  constructor
  · exact Progress.exists_derives_of_read
  · rintro ⟨ts, hsplits, hderives⟩
    rw [Progress.read, hderives.foldlM (hsplits.lexemes hderives.readable), Progress.start,
      Progress.addAll_closed, List.append_nil]

end TaskTree
