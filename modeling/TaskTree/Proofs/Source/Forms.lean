import TaskTree.Proofs.Except
import TaskTree.Proofs.Source.Reading

/-!
# One form and all forms

`Value.read` refuses further tokens once a form is finished, `Value.readAll`
goes on.  Both agree on texts of exactly one form.  What is counted is the
number of forms that are finished or under way: a token starts a new one exactly
when nothing is open.

**Results.**
* `Progress.count_step`: what one token does to the number of forms.
* `Value.read_eq_ok_iff`: a text is read as one form when that is all of its forms.
* `Value.read_written_of_spelled`: the text of a value is read as the value, respelled.
-/

namespace TaskTree

namespace Progress

/-- The number of forms that are finished or under way. -/
def count (progress : Progress) : Nat :=
  progress.forms.length + min 1 progress.unclosed.length

theorem count_add
    (progress : Progress) (value : Value) :
    (progress.add value).count =
      if progress.unclosed = [] then progress.count + 1 else progress.count := by
  unfold add count
  cases progress.unclosed with
  | nil => simp
  | cons inner outer => simp

/-- A token starts a form when nothing is open, and goes on with one otherwise. -/
theorem count_step
    {progress progress' : Progress} {token : Token}
    (h : progress.step token = .ok progress') :
    progress'.count = if progress.unclosed = [] then progress.count + 1 else progress.count := by
  unfold step at h
  split at h
  · cases h
    cases hunclosed : progress.unclosed <;> simp [count, hunclosed]
  · split at h
    · cases h
    · next inner outer hunclosed =>
      split at h
      · split at h
        · next value hvalue =>
          cases h
          rw [count_add]
          cases outer <;> simp [count, hunclosed]
        · cases h
      · cases h
  · cases h
    exact count_add progress _
  · cases h

theorem count_le_of_step
    {progress progress' : Progress} {token : Token}
    (h : progress.step token = .ok progress') :
    progress.count ≤ progress'.count := by
  rw [count_step h]
  split <;> omega

theorem count_le_of_foldlM
    {tokens : List Token} {progress progress' : Progress}
    (h : tokens.foldlM step progress = .ok progress') :
    progress.count ≤ progress'.count := by
  have hread : Ends (fun _ => True) (fun next => progress.count ≤ next.count)
      (tokens.foldlM step progress) := by
    refine .foldlM (Nat.le_refl _) fun next token hnext _ => ?_
    exact .of_cases (fun _ hstep => Nat.le_trans hnext (count_le_of_step hstep)) fun _ _ => trivial
  exact hread.of_eq_ok h

/-- Within a form a token is refused exactly when it would start a second one. -/
theorem stepWithinForm_eq_ok_iff
    {progress progress' : Progress} {token : Token}
    (hcount : progress.count ≤ 1) :
    progress.stepWithinForm token = .ok progress'
      ↔ progress.step token = .ok progress' ∧ progress'.count ≤ 1 := by
  rcases progress with ⟨forms, unclosed⟩
  constructor
  · intro h
    have hstep : step ⟨forms, unclosed⟩ token = .ok progress' := by
      unfold stepWithinForm at h
      split at h
      · cases h
      · exact h
    refine ⟨hstep, ?_⟩
    rw [count_step hstep]
    cases unclosed with
    | nil =>
        cases forms with
        | nil => simp [count]
        | cons form forms => cases h
    | cons inner outer => simpa using hcount
  · rintro ⟨hstep, hcount'⟩
    rw [count_step hstep] at hcount'
    cases unclosed with
    | nil =>
        cases forms with
        | nil => exact hstep
        | cons form forms => simp [count] at hcount'
    | cons inner outer =>
        unfold stepWithinForm
        split
        · next hnil => cases hnil
        · exact hstep

theorem foldlM_stepWithinForm_eq_ok_iff
    {tokens : List Token} {progress progress' : Progress}
    (hcount : progress.count ≤ 1) :
    tokens.foldlM stepWithinForm progress = .ok progress'
      ↔ tokens.foldlM step progress = .ok progress' ∧ progress'.count ≤ 1 := by
  induction tokens generalizing progress with
  | nil =>
      constructor
      · intro h
        cases h
        exact ⟨rfl, hcount⟩
      · exact fun h => h.1
  | cons token tokens ih =>
      simp only [List.foldlM_cons]
      constructor
      · intro h
        obtain ⟨next, hnext, h⟩ := ok_of_bind_eq_ok h
        obtain ⟨hstep, hcount'⟩ := (stepWithinForm_eq_ok_iff hcount).1 hnext
        rw [hstep]
        exact (ih hcount').1 h
      · rintro ⟨h, hcount'⟩
        obtain ⟨next, hnext, h⟩ := ok_of_bind_eq_ok h
        have hcount'' := Nat.le_trans (count_le_of_foldlM h) hcount'
        rw [(stepWithinForm_eq_ok_iff hcount).2 ⟨hnext, hcount''⟩]
        exact (ih hcount'').2 ⟨h, hcount'⟩

theorem finish_eq_ok_iff
    {progress : Progress} {values : List Value} :
    progress.finish = .ok values ↔ progress.unclosed = [] ∧ progress.forms.reverse = values := by
  unfold finish
  cases progress.unclosed <;> simp

end Progress

namespace Token

theorem forms_eq_ok_iff
    {tokens : List Token} {values : List Value} :
    forms tokens = .ok values ↔
      tokens.foldlM Progress.step Progress.start = .ok ⟨values.reverse, []⟩ := by
  constructor
  · intro h
    obtain ⟨progress, hprogress, h⟩ := ok_of_bind_eq_ok h
    obtain ⟨hunclosed, rfl⟩ := Progress.finish_eq_ok_iff.1 h
    rw [hprogress, List.reverse_reverse, ← hunclosed]
  · intro h
    rw [forms, h, ok_bind_eq]
    exact Progress.finish_eq_ok_iff.2 ⟨rfl, List.reverse_reverse values⟩

/-- Tokens are read as one form when that is all of their forms. -/
theorem form_eq_ok_iff
    {tokens : List Token} {value : Value} :
    form tokens = .ok value ↔ forms tokens = .ok [value] := by
  have hstart : Progress.start.count ≤ 1 := by decide
  rw [forms_eq_ok_iff]
  constructor
  · intro h
    obtain ⟨⟨forms, unclosed⟩, hprogress, h⟩ := ok_of_bind_eq_ok h
    obtain ⟨hsteps, hcount⟩ := (Progress.foldlM_stepWithinForm_eq_ok_iff hstart).1 hprogress
    obtain ⟨values, hfinish, h⟩ := ok_of_bind_eq_ok h
    obtain ⟨rfl, rfl⟩ := Progress.finish_eq_ok_iff.1 hfinish
    have hforms : ∃ values, forms.reverse = value :: values := by
      cases hreverse : forms.reverse with
      | nil =>
          rw [hreverse] at h
          cases h
      | cons form values =>
          rw [hreverse] at h
          cases h
          exact ⟨values, rfl⟩
    rcases hforms with ⟨values, hforms⟩
    have hlength : forms.length ≤ 1 := by simpa [Progress.count] using hcount
    have hvalues : values = [] := by
      have := congrArg List.length hforms
      rw [List.length_reverse, List.length_cons] at this
      exact List.length_eq_zero_iff.1 (by omega)
    rw [hsteps, List.reverse_eq_iff.1 hforms, hvalues]
  · intro h
    have hsteps := (Progress.foldlM_stepWithinForm_eq_ok_iff hstart).2 ⟨h, by simp [Progress.count]⟩
    rw [form, hsteps]
    rfl

end Token

namespace Value

theorem readAll_eq_ok_iff
    {source : String} {values : List Value} :
    readAll source = .ok values ↔
      Progress.start.read source.toList = .ok ⟨values.reverse, []⟩ := by
  rw [readAll, mapError_eq_ok_iff, Token.forms_eq_ok_iff, Progress.read]

/-- A text is read as one form when that is all of its forms. -/
theorem read_eq_ok_iff
    {source : String} {value : Value} :
    read source = .ok value ↔ readAll source = .ok [value] := by
  rw [read, readAll, mapError_eq_ok_iff, mapError_eq_ok_iff, Token.form_eq_ok_iff]

/-- The text of a value is read as the value, respelled. -/
theorem read_written_of_spelled
    {value : Value}
    (h : value.Everywhere Spelled) :
    read value.written = .ok value.respelled := by
  have hread : Progress.start.read (value.chars ++ [])
      = (Progress.start.add value.respelled).read [] :=
    Progress.read_chars h _ _ endsRun_nil
  rw [read_eq_ok_iff, readAll_eq_ok_iff, written, String.toList_ofList]
  rwa [List.append_nil, Progress.read_nil] at hread

end Value

end TaskTree
