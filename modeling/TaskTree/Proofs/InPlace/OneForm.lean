import TaskTree.Proofs.InPlace.Agreement
import TaskTree.Proofs.Program

/-!
# One form and all forms of a text

What becomes of a text when it is read as one form shows from its first form and from what follows
that.  A text without forms, and one in which anything follows the first form, is refused; if the
first form cannot be read, it makes no difference how many forms are asked for.

**Results.**
* `InPlace.firstForm`: what a text starts with, and what it is read as.
* `Node.one_form_and_all_forms`: how one form and all forms of a text fit together, read and
  understood.
-/

namespace TaskTree
namespace InPlace

open Progress

variable {source : String} {form : Value} {i : Nat} {notice : Notice}

/-- A text starts with no form exactly if it has none, and then it is not read as one. -/
theorem read_of_first_none
    (h : first source = .ok (none, i)) :
    i = source.utf8ByteSize ∧ Value.readAll source = .ok [] ∧
      Value.read source = .error ⟨.unexpectedEnd, source.utf8ByteSize⟩ := by
  obtain ⟨hi, hskip⟩ := (ends_first_form source).of_eq_ok h
  have hindex := hi.index
  have htokens := Token.ofText_eq_nil hskip
  have hoffset : ReadFailure.locate source.toList ⟨.unexpectedEnd, []⟩
      = ⟨.unexpectedEnd, source.utf8ByteSize⟩ := by
    rw [ReadFailure.locate, Text.byteLength_toList]
    rfl
  refine ⟨by simpa using hindex, ?_, ?_⟩
  · rw [Value.readAll, htokens]
    rfl
  · rw [Value.read, htokens, ← hoffset]
    rfl

/-- If the first form cannot be read, neither can the text. -/
theorem read_of_first_error
    (h : first source = .error (.reported notice)) :
    ∃ e, e.notice = notice ∧ Value.read source = .error e ∧ Value.readAll source = .error e := by
  have hstop := (ends_first_form source).of_eq_error h
  generalize hreported : Stop.reported notice = stop at hstop
  cases hstop with
  | exhausted => cases hreported
  | @reported failure hfailure =>
      cases hreported
      have hform : Token.form (Token.ofText source.toList) = .error failure := by
        rw [form_eq_bind, hfailure _ begins_stepWithinForm]
        rfl
      have hforms : Token.forms (Token.ofText source.toList) = .error failure :=
        hfailure _ begins_step
      refine ⟨_, rfl, ?_, ?_⟩
      · rw [Value.read, hform]
        rfl
      · rw [Value.readAll, hforms]
        rfl

/-- What follows the first form decides whether the text is read as that form. -/
theorem read_of_first_some
    (h : first source = .ok (some form, i)) :
    (i = source.utf8ByteSize ∧ Value.read source = .ok form) ∨
      i < source.utf8ByteSize ∧ Value.read source = .error ⟨.trailingInput, i⟩ ∧
        ∃ c, peek? source i = some c ∧ isSeparator c = false ∧ c ≠ ';' := by
  obtain ⟨rest, hi, hread⟩ := (ends_first_form source).of_eq_ok h
  have hform := form_eq_bind source.toList
  rw [hread _ begins_stepWithinForm] at hform
  cases hskip : skipSeparators rest with
  | nil =>
      rw [hskip] at hi
      have hindex := hi.index
      rw [readWith_nil hskip] at hform
      refine .inl ⟨by simpa using hindex, ?_⟩
      rw [Value.read, hform]
      rfl
  | cons c rest' =>
      obtain ⟨hseparator, hcomment⟩ := token_of_skipSeparators hskip
      rw [hskip] at hi
      have hoffset : ReadFailure.locate source.toList ⟨.trailingInput, c :: rest'⟩
          = ⟨.trailingInput, i⟩ := by
        rw [ReadFailure.locate, hi.offset]
        rfl
      rw [readWith_eq_bind hskip] at hform
      refine .inr ⟨lt_of_peek? hi.peek?_cons, ?_, leadingByte c, hi.peek?_cons, ?_, ?_⟩
      · rw [Value.read, hform, ← hoffset]
        rfl
      · rw [ignoresHigh_isSeparator.leadingByte, hseparator]
      · exact leadingByte_ne (by decide) hcomment

/-- A form that a text starts with is one of its forms. -/
theorem readAll_ne_nil
    (h : first source = .ok (some form, i)) :
    Value.readAll source ≠ .ok [] := by
  intro hall
  obtain ⟨rest, -, hread⟩ := (ends_first_form source).of_eq_ok h
  have hsteps : readWith step ⟨[form], []⟩ rest = .ok ⟨[], []⟩ :=
    (hread _ begins_step).symm.trans (Value.readAll_eq_ok_iff.1 hall)
  have hcount := count_le_of_foldlM hsteps
  exact absurd hcount (by simp [count])

/-- What a text starts with, and what that makes of it as one form and as all of its forms. -/
inductive FirstForm (source : String) : Prop
  | absent
      (hfirst : first source = .ok (none, source.utf8ByteSize))
      (hread : Value.read source = .error ⟨.unexpectedEnd, source.utf8ByteSize⟩)
      (hall : Value.readAll source = .ok [])
  | unreadable
      {e : ReadError}
      (hfirst : first source = .error (.reported e.notice))
      (hread : Value.read source = .error e)
      (hall : Value.readAll source = .error e)
  | only
      {form : Value}
      (hfirst : first source = .ok (some form, source.utf8ByteSize))
      (hread : Value.read source = .ok form)
      (hall : Value.readAll source = .ok [form])
  | followed
      {form : Value} {i : Nat} {c : Char}
      (hfirst : first source = .ok (some form, i))
      (hbyte : peek? source i = some c)
      (hseparator : isSeparator c = false)
      (hcomment : c ≠ ';')
      (hread : Value.read source = .error ⟨.trailingInput, i⟩)

theorem firstForm
    (source : String) :
    FirstForm source := by
  cases h : first source with
  | error stop =>
      cases stop with
      | reported notice =>
          obtain ⟨e, rfl, hread, hall⟩ := read_of_first_error h
          exact .unreadable h hread hall
      | misplaced => cases (ends_first_form source).of_eq_error h
      | exhausted => cases (ends_first source).of_eq_error h
  | ok found =>
      rcases found with ⟨_ | form, i⟩
      · obtain ⟨rfl, hall, hread⟩ := read_of_first_none h
        exact .absent h hread hall
      · rcases read_of_first_some h with ⟨rfl, hread⟩ | ⟨-, hread, c, hc, hseparator, hcomment⟩
        · exact .only h hread (Value.read_eq_ok_iff.1 hread)
        · exact .followed h hc hseparator hcomment hread

end InPlace

namespace Node

variable {source : String}

/-- A text has one program as the program of its only form. -/
theorem parse_eq_ok_iff_parseAll
    {node : Node} :
    parse source = .ok node ↔ parseAll source = .ok [node] := by
  rw [parse_eq_ok_iff_ofValue, parseAll_eq_ok_iff]
  simp only [ofValues_eq_mapM, mapM_eq_ok_iff, List.forall₂_cons_right_iff,
    List.forall₂_nil_right_iff]
  constructor
  · rintro ⟨value, hread, h⟩
    exact ⟨[value], Value.read_eq_ok_iff.1 hread, value, [], h, rfl, rfl⟩
  · rintro ⟨_, hread, value, _, h, rfl, rfl⟩
    exact ⟨value, Value.read_eq_ok_iff.2 hread, h⟩

/-- Whatever goes wrong over a text, the error carries the text. -/
theorem input?_of_parse
    {error : Error}
    (h : parse source = .error error ∨ parseAll source = .error error) :
    error.input? = some source := by
  rcases h with h | h
  · rcases parse_eq_error_iff.1 h with ⟨e, -, rfl⟩ | ⟨value, e, -, -, rfl⟩ <;> rfl
  · rcases parseAll_eq_error_iff.1 h with ⟨e, -, rfl⟩ | ⟨values, e, -, -, rfl⟩ <;> rfl

/-- A text is read and understood as one form exactly if that is all of its forms.  Otherwise it
has no form, its first form cannot be read, or something that is no separator follows that.  Over
all forms, what cannot be read comes before what is not understood, and of that the first form. -/
theorem one_form_and_all_forms
    (source : String) :
    ((∀ value, Value.read source = .ok value ↔ Value.readAll source = .ok [value]) ∧
        ∀ node, parse source = .ok node ↔ parseAll source = .ok [node]) ∧
      (Value.readAll source = .ok [] →
        ∃ e, Value.read source = .error e ∧
          e.notice = ⟨"unexpected end of input", source.utf8ByteSize⟩) ∧
      InPlace.FirstForm source ∧
      (∀ notice, InPlace.first source = .error (.reported notice) →
        ∃ e, e.notice = notice ∧ Value.read source = .error e ∧
          Value.readAll source = .error e) ∧
      (∀ form i, InPlace.first source = .ok (some form, i) → i < source.utf8ByteSize →
        (∃ c, InPlace.peek? source i = some c ∧ isSeparator c = false ∧ c ≠ ';') ∧
          ∃ e, Value.read source = .error e ∧ e.notice = ⟨"unexpected trailing input", i⟩) ∧
      (∀ e, Value.readAll source = .error e → parseAll source = .error (.read source e)) ∧
      (∀ values e, Value.readAll source = .ok values →
        (parseAll source = .error e ↔
          ∃ before value after problem, values = before ++ value :: after ∧
            (∀ v ∈ before, ∃ node, ofValue v = .ok node) ∧ ofValue value = .error problem ∧
            e = .parse source problem)) ∧
      ∀ error, parse source = .error error ∨ parseAll source = .error error →
        error.input? = some source := by
  refine ⟨⟨fun _ => Value.read_eq_ok_iff, fun _ => parse_eq_ok_iff_parseAll⟩, fun hall => ?_,
    InPlace.firstForm source, fun notice => InPlace.read_of_first_error, fun form i h hlt => ?_,
    fun e hread => parseAll_eq_error_iff.2 (.inl ⟨e, hread, rfl⟩), fun values e hread => ?_,
    fun error => input?_of_parse⟩
  · cases InPlace.firstForm source with
    | absent _ hread _ => exact ⟨_, hread, rfl⟩
    | unreadable _ _ hfailed => cases hall.symm.trans hfailed
    | only h => exact absurd hall (InPlace.readAll_ne_nil h)
    | followed h => exact absurd hall (InPlace.readAll_ne_nil h)
  · rcases InPlace.read_of_first_some h with ⟨rfl, -⟩ | ⟨-, hread, hbyte⟩
    · exact absurd hlt (Nat.lt_irrefl _)
    · exact ⟨hbyte, _, hread, rfl⟩
  · rw [parseAll_eq_error_iff, hread]
    constructor
    · rintro (⟨e, ⟨⟩, -⟩ | ⟨_, problem, ⟨⟩, hproblem, rfl⟩)
      obtain ⟨before, value, after, hsplit, hbefore, hvalue⟩ := ofValues_eq_error_iff.1 hproblem
      exact ⟨before, value, after, problem, hsplit, hbefore, hvalue, rfl⟩
    · rintro ⟨before, value, after, problem, hsplit, hbefore, hvalue, rfl⟩
      exact .inr ⟨values, problem, rfl,
        ofValues_eq_error_iff.2 ⟨before, value, after, hsplit, hbefore, hvalue⟩, rfl⟩

end Node
end TaskTree
