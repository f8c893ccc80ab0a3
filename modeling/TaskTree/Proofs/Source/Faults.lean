import TaskTree.Proofs.Source.Grammar

/-!
# The faults that a text can have

A run of symbol characters never breaks off at a character that cannot be read: where a token
starts, there is a bracket, a quote or a symbol character.  That a text has no form, or more than
one, is found only when it is read as a single form.

**Results.**
* `Lexeme.inForms_of_broken`: the faults of a broken token.
* `Value.inForms_of_readAll`: the faults of a text of which all forms are read.
* `ReadFault.message_ne`: these have other descriptions than the rest.
-/

namespace TaskTree

/-- Whether a fault lies in the forms of a text, not in their number or in what separates them. -/
def ReadFault.inForms : ReadFault → Bool
  | .unexpectedEnd => false
  | .trailingInput => false
  | .unexpectedCharacter => false
  | _ => true

section Tokens

variable {s : List Char} {c : Char} {failure : ReadFailure} {token : Token}

theorem Quoted.inForms_of_decode
    (h : decode s = .error failure) :
    failure.fault.inForms = true := by
  fun_induction decode s with
  | case1 => cases h; rfl
  | case2 => cases h
  | case3 => cases h; rfl
  | case4 => cases h; rfl
  | case5 => cases h
  | case6 letter s decoded hletter failure' hdecode _ ih => cases h; exact ih hdecode
  | case7 => cases h
  | case8 c s hquote hslash failure' hdecode ih => cases h; exact ih hdecode

theorem Atom.inForms_of_value
    {run : List Char}
    (h : value run = .error failure) :
    failure.fault.inForms = true := by
  unfold value at h
  split at h
  · cases h
    rfl
  · cases h
  · split at h
    · unfold number at h
      dsimp only at h
      split at h
      · cases h
        rfl
      · split at h
        · split at h
          · cases h
          · cases h
            rfl
        · cases h
    · cases h

/-- What starts a token and is no symbol character is a bracket or a quote. -/
theorem Lexeme.inForms_of_broken
    (hseparator : isSeparator c = false)
    (hcomment : c ≠ ';')
    (h : (Lexeme.next c s).1 = .broken failure) :
    failure.fault.inForms = true := by
  unfold Lexeme.next at h
  split at h
  case h_7 =>
    split at h
    · cases h
    · next hdecode =>
      cases h
      exact Quoted.inForms_of_decode hdecode
  case h_8 h1 h2 h3 h4 h5 h6 h7 =>
    have hsymbol : isSymbolChar c = true := by
      refine isSymbolChar_iff.2 ⟨hseparator, ?_⟩
      simp only [isDelimiter, Bool.or_eq_false_iff, beq_eq_false_iff_ne]
      exact ⟨⟨⟨⟨⟨⟨⟨h1, h4⟩, h2⟩, h5⟩, h3⟩, h6⟩, h7⟩, hcomment⟩
    rw [if_pos hsymbol] at h
    dsimp only at h
    split at h
    · cases h
    · next hvalue =>
      cases h
      have hfault := Atom.inForms_of_value hvalue
      exact hfault
  all_goals cases h

theorem Token.inForms_of_mem_ofText
    {s : List Char}
    (h : token ∈ Token.ofText s)
    (hbroken : token.lexeme = .broken failure) :
    failure.fault.inForms = true := by
  cases hskip : skipSeparators s with
  | nil =>
      rw [Token.ofText_eq_nil hskip] at h
      cases h
  | cons c rest =>
      rw [Token.ofText_eq_cons hskip] at h
      rcases List.mem_cons.1 h with rfl | h
      · obtain ⟨hseparator, hcomment⟩ := token_of_skipSeparators hskip
        exact Lexeme.inForms_of_broken hseparator hcomment hbroken
      · exact Token.inForms_of_mem_ofText h hbroken
termination_by s.length
decreasing_by exact Token.length_rest_lt hskip

end Tokens

section Forms

variable {s : List Char} {failure : ReadFailure} {token : Token} {progress : Progress}

theorem OpenCollection.inForms_of_close
    {collection : OpenCollection}
    (h : collection.close = .error failure) :
    failure.fault.inForms = true := by
  unfold close at h
  dsimp only at h
  split at h
  · cases h
  · cases h
  · split at h
    · cases h
    · cases h
      rfl

theorem Progress.inForms_of_step
    (hbroken : ∀ failure, token.lexeme = .broken failure → failure.fault.inForms = true)
    (h : progress.step token = .error failure) :
    failure.fault.inForms = true := by
  unfold step at h
  split at h
  · cases h
  · split at h
    · cases h
      rfl
    · split at h
      · split at h
        · cases h
        · next hclose =>
          cases h
          exact OpenCollection.inForms_of_close hclose
      · cases h
        rfl
  · cases h
  · next hlexeme =>
    cases h
    exact hbroken _ hlexeme

theorem Progress.inForms_of_foldlM
    {tokens : List Token}
    (hbroken : ∀ token ∈ tokens, ∀ failure, token.lexeme = .broken failure →
      failure.fault.inForms = true)
    (h : tokens.foldlM step progress = .error failure) :
    failure.fault.inForms = true := by
  have hread : Ends (fun failure : ReadFailure => failure.fault.inForms = true) (fun _ => True)
      (tokens.foldlM step progress) := by
    refine .foldlM trivial fun progress token _ htoken => ?_
    exact .of_cases (fun _ _ => trivial) fun _ => inForms_of_step (hbroken token htoken)
  exact hread.of_eq_error h

theorem Token.inForms_of_forms
    (h : Token.forms (Token.ofText s) = .error failure) :
    failure.fault.inForms = true := by
  rcases bind_eq_error_iff.1 h with hsteps | ⟨progress, -, hfinish⟩
  · exact Progress.inForms_of_foldlM (fun _ htoken _ => inForms_of_mem_ofText htoken) hsteps
  · unfold Progress.finish at hfinish
    split at hfinish
    · cases hfinish
    · cases hfinish
      rfl

/-- What is wrong with a text of which all forms are read is wrong within a form. -/
theorem Value.inForms_of_readAll
    {source : String} {e : ReadError}
    (h : Value.readAll source = .error e) :
    e.fault.inForms = true := by
  obtain ⟨failure, hforms, rfl⟩ := mapError_eq_error_iff.1 h
  exact Token.inForms_of_forms hforms

end Forms

section Descriptions

/-- An unknown escape is described with the first byte of its character. -/
theorem ReadFault.message_unknownEscape
    (escaped : Char) :
    (unknownEscape escaped).message
      = "unknown escape: \\" ++ String.ofList [leadingByte escaped] :=
  rfl

/-- The description of an unknown escape starts as no other. -/
theorem ReadFault.message_unknownEscape_ne
    {text : String}
    (escaped : Char)
    (h : text.toList.take 3 ≠ ['u', 'n', 'k']) :
    (unknownEscape escaped).message ≠ text := by
  rintro rfl
  rw [message_unknownEscape, String.toList_append] at h
  exact h rfl

/-- The descriptions of what only a mistake of the reader could bring about. -/
def ReadFault.internal : List String :=
  ["unexpected character", "invalid UTF-8 in string literal", "invalid float literal"]

/-- A fault within a form is described by none of these texts. -/
theorem ReadFault.message_ne
    {fault : ReadFault}
    (h : fault.inForms = true) :
    fault.message ∉ "unexpected end of input" :: "unexpected trailing input" :: internal := by
  cases fault
  case unknownEscape escaped =>
    intro hmem
    have htake : ∀ text ∈ "unexpected end of input" :: "unexpected trailing input" :: internal,
        text.toList.take 3 ≠ ['u', 'n', 'k'] := by decide
    exact message_unknownEscape_ne escaped (htake _ hmem) rfl
  case unexpectedEnd => cases h
  case trailingInput => cases h
  case unexpectedCharacter => cases h
  all_goals decide

end Descriptions

end TaskTree
