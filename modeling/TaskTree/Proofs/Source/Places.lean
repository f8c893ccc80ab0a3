import Mathlib.Data.String.Basic
import TaskTree.Proofs.Source.Forms

/-!
# Where reading fails

What is left of a text when a failure is noticed is an end of that text: every
token starts in it, a broken one breaks off in it, and the brackets that are open
were opened in it.  The offset of an error is therefore that of the part of the
text in which reading fails, moved by what stands before that part.

**Results.**
* `Token.within_of_mem_ofText`: tokens start and break off in their text.
* `Progress.OpenedIn.step`, `Token.suffix_of_forms`: so every failure is noticed in the text.
* `ReadFailure.locate_append`: a failure in the end of a text, located in the whole text.
-/

namespace TaskTree

section Scanning

mutual

theorem skipSeparators_suffix :
    ∀ s : List Char, skipSeparators s <:+ s
  | [] => by simp [skipSeparators]
  | c :: s => by
      rw [skipSeparators]
      split
      · exact (skipSeparators_suffix s).trans (List.suffix_cons c s)
      · split
        · exact (skipComment_suffix s).trans (List.suffix_cons c s)
        · exact List.suffix_rfl

theorem skipComment_suffix :
    ∀ s : List Char, skipComment s <:+ s
  | [] => by simp [skipComment]
  | c :: s => by
      rw [skipComment]
      split
      · exact (skipSeparators_suffix s).trans (List.suffix_cons c s)
      · exact (skipComment_suffix s).trans (List.suffix_cons c s)

end

namespace Quoted

/-- What follows a literal is an end of the text behind the opening quote. -/
theorem suffix_of_decode
    {s text rest : List Char}
    (h : decode s = .ok (text, rest)) :
    rest <:+ s := by
  fun_induction decode s generalizing text with
  | case1 => cases h
  | case2 s => cases h; exact List.suffix_cons _ _
  | case3 => cases h
  | case4 => cases h
  | case5 letter s decoded hletter text after hdecode _ ih =>
      cases h
      exact ((ih hdecode).trans (List.suffix_cons _ _)).trans (List.suffix_cons _ _)
  | case6 => cases h
  | case7 c s hquote hslash text after hdecode ih =>
      cases h
      exact (ih hdecode).trans (List.suffix_cons _ _)
  | case8 => cases h

/-- A literal that cannot be read breaks off in the text behind its opening quote. -/
theorem suffix_of_decode_error
    {s : List Char} {failure : ReadFailure}
    (h : decode s = .error failure) :
    failure.rest <:+ s := by
  fun_induction decode s with
  | case1 => cases h; exact List.nil_suffix
  | case2 => cases h
  | case3 => cases h; exact List.nil_suffix
  | case4 letter s => cases h; exact List.suffix_cons _ _
  | case5 => cases h
  | case6 letter s decoded hletter failure' hdecode _ ih =>
      cases h
      exact ((ih hdecode).trans (List.suffix_cons _ _)).trans (List.suffix_cons _ _)
  | case7 => cases h
  | case8 c s hquote hslash failure' hdecode ih =>
      cases h
      exact (ih hdecode).trans (List.suffix_cons _ _)

end Quoted

theorem takeSign_suffix
    (s : List Char) :
    (takeSign s).2 <:+ s := by
  unfold takeSign
  split
  · exact List.suffix_cons _ _
  · exact List.suffix_cons _ _
  · exact List.suffix_rfl

namespace Atom

theorem takeFraction_suffix
    (s : List Char) :
    (takeFraction s).2 <:+ s := by
  unfold takeFraction
  split
  · split
    · exact (List.dropWhile_suffix _).trans (List.suffix_cons _ _)
    · exact List.suffix_rfl
  · exact List.suffix_rfl

theorem takeExponent_suffix
    (s : List Char) :
    (takeExponent s).2 <:+ s := by
  cases s with
  | nil => exact List.suffix_rfl
  | cons mark after =>
      unfold takeExponent
      dsimp only
      split
      · have hdigits := (List.dropWhile_suffix Char.isDigit).trans (takeSign_suffix after)
        exact hdigits.trans (List.suffix_cons _ _)
      · exact List.suffix_rfl

/-- What follows a numeral is an end of the text. -/
theorem takeNumeral_suffix
    (s : List Char) :
    (takeNumeral s).2 <:+ s :=
  (takeExponent_suffix _).trans
    ((takeFraction_suffix _).trans ((List.dropWhile_suffix _).trans (takeSign_suffix s)))

/-- A run that stands for nothing breaks off in itself. -/
theorem suffix_of_value_error
    {run : List Char} {failure : ReadFailure}
    (h : value run = .error failure) :
    failure.rest <:+ run := by
  unfold value at h
  split at h
  · cases h
    exact List.nil_suffix
  · cases h
  · split at h
    · unfold number at h
      dsimp only at h
      split at h
      · cases h
        exact takeNumeral_suffix run
      · split at h
        · split at h
          · cases h
          · cases h
            exact List.nil_suffix
        · cases h
    · cases h

end Atom

/-- What follows a token is an end of the text behind its first character. -/
theorem Lexeme.suffix_next
    (c : Char) (s : List Char) :
    (Lexeme.next c s).2 <:+ s := by
  unfold Lexeme.next
  split
  case h_7 =>
    split
    · next hdecode => exact Quoted.suffix_of_decode hdecode
    · exact List.nil_suffix
  case h_8 =>
    split
    · dsimp only
      split
      · exact List.dropWhile_suffix _
      · exact List.nil_suffix
    · exact List.nil_suffix
  all_goals exact List.suffix_rfl

/-- A broken token breaks off in the text that it starts. -/
theorem Lexeme.suffix_of_broken
    {c : Char} {s : List Char} {failure : ReadFailure}
    (h : (Lexeme.next c s).1 = .broken failure) :
    failure.rest <:+ c :: s := by
  unfold Lexeme.next at h
  split at h
  case h_7 =>
    split at h
    · cases h
    · next hdecode =>
      cases h
      exact (Quoted.suffix_of_decode_error hdecode).trans (List.suffix_cons _ _)
  case h_8 =>
    split at h
    · dsimp only at h
      split at h
      · cases h
      · next broken hvalue =>
        cases h
        have hrun : broken.rest ++ s.dropWhile isSymbolChar
            <:+ (c :: s.takeWhile isSymbolChar) ++ s.dropWhile isSymbolChar :=
          List.suffix_append_self_iff.2 (Atom.suffix_of_value_error hvalue)
        rwa [List.cons_append, List.takeWhile_append_dropWhile] at hrun
    · cases h
      exact List.suffix_rfl
  all_goals cases h

/-- A token starts in the text, and if it is broken, it breaks off there. -/
structure Token.Within (s : List Char) (token : Token) : Prop where
  start : token.start <:+ s
  broken : ∀ failure, token.lexeme = .broken failure → failure.rest <:+ s

theorem Token.Within.mono
    {s t : List Char} {token : Token}
    (h : token.Within s)
    (hsuffix : s <:+ t) :
    token.Within t :=
  ⟨h.start.trans hsuffix, fun failure hfailure => (h.broken failure hfailure).trans hsuffix⟩

/-- The tokens of a text start and break off in it. -/
theorem Token.within_of_mem_ofText
    {s : List Char} {token : Token}
    (h : token ∈ Token.ofText s) :
    token.Within s := by
  cases hskip : skipSeparators s with
  | nil =>
      rw [Token.ofText_eq_nil hskip] at h
      cases h
  | cons c rest =>
      have hsuffix : c :: rest <:+ s := hskip ▸ skipSeparators_suffix s
      rw [Token.ofText_eq_cons hskip] at h
      rcases List.mem_cons.1 h with rfl | h
      · exact ⟨hsuffix, fun failure hfailure =>
          (Lexeme.suffix_of_broken hfailure).trans hsuffix⟩
      · have hrest := (Lexeme.suffix_next c rest).trans (List.suffix_cons c rest)
        exact (Token.within_of_mem_ofText h).mono (hrest.trans hsuffix)
termination_by s.length
decreasing_by exact Token.length_rest_lt hskip

end Scanning

section Reading

/-- The brackets that are open were opened in the text. -/
def Progress.OpenedIn (s : List Char) (progress : Progress) : Prop :=
  ∀ collection ∈ progress.unclosed, collection.start <:+ s

/-- Closing fails where the bracket was opened. -/
theorem OpenCollection.rest_of_close
    {collection : OpenCollection} {failure : ReadFailure}
    (h : collection.close = .error failure) :
    failure.rest = collection.start := by
  unfold close at h
  dsimp only at h
  split at h
  · cases h
  · cases h
  · split at h
    · cases h
    · cases h
      rfl

namespace Progress.OpenedIn

variable {s : List Char} {progress progress' : Progress} {token : Token}

theorem start :
    OpenedIn s Progress.start :=
  List.forall_mem_nil _

theorem add
    (h : progress.OpenedIn s)
    (value : Value) :
    (progress.add value).OpenedIn s := by
  rcases progress with ⟨forms, unclosed⟩
  cases unclosed with
  | nil => exact List.forall_mem_nil _
  | cons inner outer =>
      obtain ⟨hinner, houter⟩ := List.forall_mem_cons.1 h
      exact List.forall_mem_cons.2 ⟨hinner, houter⟩

/-- One token opens a bracket in the text, or fails in it. -/
theorem step
    (h : progress.OpenedIn s)
    (htoken : token.Within s) :
    (∀ progress', progress.step token = .ok progress' → progress'.OpenedIn s) ∧
      ∀ failure, progress.step token = .error failure → failure.rest <:+ s := by
  rcases progress with ⟨forms, unclosed⟩
  unfold Progress.step
  split
  · refine ⟨?_, nofun⟩
    rintro _ ⟨⟩
    exact List.forall_mem_cons.2 ⟨htoken.start, h⟩
  · cases unclosed with
    | nil =>
        refine ⟨nofun, ?_⟩
        rintro _ ⟨⟩
        exact htoken.start
    | cons inner outer =>
        -- the place is that of the bracket that is closed, or of the one that does not close it
        obtain ⟨hinner, houter⟩ := List.forall_mem_cons.1 h
        dsimp only
        split
        · cases hclose : inner.close with
          | ok value =>
              refine ⟨?_, nofun⟩
              rintro _ ⟨⟩
              have hrest : OpenedIn s ⟨forms, outer⟩ := houter
              exact hrest.add value
          | error failure =>
              refine ⟨nofun, ?_⟩
              rintro _ ⟨⟩
              rwa [OpenCollection.rest_of_close hclose]
        · refine ⟨nofun, ?_⟩
          rintro _ ⟨⟩
          exact htoken.start
  · refine ⟨?_, nofun⟩
    rintro _ ⟨⟩
    exact h.add _
  · next failure hbroken =>
    refine ⟨nofun, ?_⟩
    rintro _ ⟨⟩
    exact htoken.broken failure hbroken

/-- So do all tokens of a text. -/
theorem foldlM
    {tokens : List Token} {failure : ReadFailure}
    (h : progress.OpenedIn s)
    (htokens : ∀ token ∈ tokens, token.Within s)
    (hsteps : tokens.foldlM Progress.step progress = .error failure) :
    failure.rest <:+ s := by
  have hread : Ends (fun failure : ReadFailure => failure.rest <:+ s) (OpenedIn s)
      (tokens.foldlM Progress.step progress) := by
    refine .foldlM h fun progress token hprogress htoken => ?_
    obtain ⟨hok, herror⟩ := hprogress.step (htokens token htoken)
    exact .of_cases hok herror
  exact hread.of_eq_error hsteps

end Progress.OpenedIn

/-- Reading all forms of a text fails at an end of the text. -/
theorem Token.suffix_of_forms
    {s : List Char} {failure : ReadFailure}
    (h : Token.forms (Token.ofText s) = .error failure) :
    failure.rest <:+ s := by
  rcases bind_eq_error_iff.1 h with hsteps | ⟨progress, -, hfinish⟩
  · exact Progress.OpenedIn.start.foldlM (fun _ => Token.within_of_mem_ofText) hsteps
  · unfold Progress.finish at hfinish
    split at hfinish
    · cases hfinish
    · cases hfinish
      exact List.nil_suffix

end Reading

section Offsets

namespace Text

theorem utf8Len_eq_byteLength
    (s : List Char) :
    String.utf8Len s = byteLength s := by
  induction s with
  | nil => rfl
  | cons c s ih => rw [String.utf8Len_cons, ih, byteLength_cons, Nat.add_comm]

theorem byteLength_toList
    (s : String) :
    byteLength s.toList = s.utf8ByteSize := by
  rw [← utf8Len_eq_byteLength, ← String.utf8ByteSize_ofList, String.ofList_toList]

theorem byteLength_le_of_suffix
    {s t : List Char}
    (h : s <:+ t) :
    byteLength s ≤ byteLength t := by
  obtain ⟨before, rfl⟩ := h
  rw [byteLength_append]
  exact Nat.le_add_left _ _

end Text

/-- What stands before a text moves the failures in it by its length. -/
theorem ReadFailure.locate_append
    {failure : ReadFailure} {s : List Char}
    (h : failure.rest <:+ s)
    (before : List Char) :
    failure.locate (before ++ s) =
      ⟨(failure.locate s).fault, (failure.locate s).offset + Text.byteLength before⟩ := by
  have hle := Text.byteLength_le_of_suffix h
  simp only [ReadFailure.locate, Text.byteLength_append, ReadError.mk.injEq, true_and]
  omega

end Offsets

end TaskTree
