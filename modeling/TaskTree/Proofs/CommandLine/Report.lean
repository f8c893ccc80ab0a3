import TaskTree.CommandLine.Run
import TaskTree.Proofs.Node.Failure
import TaskTree.Proofs.Value.Lines

/-!
# The report of a check

A check writes one line for each form.  Which forms are no programs can be seen from
the lines alone: no message of an error reads like the word for a program, and none
has a line end in it.

**Results.**
* `CommandLine.newline_not_mem_checkLines`: the lines of a report are lines.
* `CommandLine.length_complaints`, `CommandLine.head?_complaints`: the lines that complain are
  those of the forms that are refused.
* `CommandLine.checkFailure?_eq_none_iff`, `CommandLine.checkFailure?_of_error`: a check fails when
  there are such lines, with their number.
-/

namespace TaskTree

theorem ParseFault.newline_not_mem_name
    (fault : ParseFault) :
    '\n' ∉ fault.name.toList := by
  cases fault with
  | invalidForm form => cases form <;> simp [name, SpecialForm.expectedShape]
  | _ => simp [name]

/-- The message of an error is one line, if the text of the value at fault is. -/
theorem ParseError.newline_not_mem_message
    {e : ParseError}
    (h : e.fragment.Everywhere Value.Spelled) :
    '\n' ∉ e.message.toList := by
  have hname := e.fault.newline_not_mem_name
  have hfragment := Value.newline_not_mem_chars h
  simp [message, Value.written, hname, hfragment]

/-- So is the message of every error of what the reader produces. -/
theorem Node.newline_not_mem_message
    {value : Value} {e : ParseError}
    (hspelled : value.Everywhere Value.Spelled)
    (h : ofValue value = .error e) :
    '\n' ∉ e.message.toList := by
  obtain ⟨hplace, -⟩ := refuses_of_ofValue h
  rcases hplace with hsame | hinside
  · exact ParseError.newline_not_mem_message (hsame ▸ hspelled)
  · exact ParseError.newline_not_mem_message (hspelled.of_inside hinside)

/-- No message of an error reads like the word for a program: it has a colon. -/
theorem ParseError.message_ne_ok
    (e : ParseError) :
    e.message ≠ "ok" := by
  intro h
  have hcolon : ':' ∈ e.message.toList := by simp [message]
  rw [h] at hcolon
  simp at hcolon

namespace CommandLine

section Lines

variable {form : Value} {forms : List Value} {e : ParseError}

theorem complaint?_eq_none_iff :
    complaint? form = none ↔ ∃ node, Node.ofValue form = .ok node := by
  unfold complaint?
  cases Node.ofValue form <;> simp

theorem complaint?_eq_some_iff :
    complaint? form = some e ↔ Node.ofValue form = .error e := by
  unfold complaint?
  cases Node.ofValue form <;> simp

/-- The line of a form that is a program. -/
def okLine (number : Nat) : String :=
  "form " ++ toString number ++ ": ok"

theorem checkLine_of_none
    (number : Nat)
    (h : complaint? form = none) :
    checkLine number form = okLine number := by
  have hok : ": ok" = ": " ++ "ok" := rfl
  rw [checkLine, h, okLine, hok, ← String.append_assoc]

theorem checkLine_of_some
    (number : Nat)
    (h : complaint? form = some e) :
    checkLine number form = "form " ++ toString number ++ ": " ++ e.message := by
  rw [checkLine, h]

/-- The line of a form says that it is a program exactly if it is one. -/
theorem checkLine_eq_okLine_iff
    {number : Nat} :
    checkLine number form = okLine number ↔ complaint? form = none := by
  refine ⟨fun h => ?_, checkLine_of_none number⟩
  cases hform : complaint? form with
  | none => rfl
  | some e =>
      have hok : ": ok" = ": " ++ "ok" := rfl
      rw [checkLine_of_some number hform, okLine, hok, ← String.append_assoc,
        String.append_right_inj] at h
      exact absurd h e.message_ne_ok

theorem newline_not_mem_checkLine
    (number : Nat)
    (h : form.Everywhere Value.Spelled) :
    '\n' ∉ (checkLine number form).toList := by
  have hnumber : '\n' ∉ Nat.toDigits 10 number := by
    intro hmem
    cases isDigit_of_mem_digitsOf hmem
  cases hform : complaint? form with
  | none => simp [checkLine_of_none number hform, okLine, hnumber]
  | some e =>
      have hmessage := Node.newline_not_mem_message h (complaint?_eq_some_iff.1 hform)
      simp [checkLine_of_some number hform, hnumber, hmessage]

/-- The lines of a report have no other line ends than their own. -/
theorem newline_not_mem_checkLines
    (number : Nat)
    (h : ∀ form ∈ forms, form.Everywhere Value.Spelled) :
    ∀ line ∈ checkLines number forms, '\n' ∉ line.toList := by
  induction forms generalizing number with
  | nil => exact List.forall_mem_nil _
  | cons form forms ih =>
      obtain ⟨hform, h⟩ := List.forall_mem_cons.1 h
      exact List.forall_mem_cons.2 ⟨newline_not_mem_checkLine number hform, ih (number + 1) h⟩

theorem length_checkLines
    (number : Nat) (forms : List Value) :
    (checkLines number forms).length = forms.length := by
  induction forms generalizing number with
  | nil => rfl
  | cons form forms ih => rw [checkLines, List.length_cons, List.length_cons, ih]

end Lines

section Complaints

variable {form : Value} {forms before after : List Value} {e : ParseError}

/-- The lines that do not say that their form is a program, with their numbers. -/
def complaints (number : Nat) (lines : List String) : List (String × Nat) :=
  (lines.zipIdx number).filter fun line => line.1 ≠ okLine line.2

theorem complaints_cons_of_none
    (number : Nat) (forms : List Value)
    (h : complaint? form = none) :
    complaints number (checkLines number (form :: forms)) =
      complaints (number + 1) (checkLines (number + 1) forms) := by
  have hline := checkLine_of_none number h
  simp [complaints, checkLines, hline]

theorem complaints_cons_of_some
    (number : Nat) (forms : List Value)
    (h : complaint? form = some e) :
    complaints number (checkLines number (form :: forms)) =
      ("form " ++ toString number ++ ": " ++ e.message, number) ::
        complaints (number + 1) (checkLines (number + 1) forms) := by
  have hline : checkLine number form ≠ okLine number := by
    rw [Ne, checkLine_eq_okLine_iff, h]
    nofun
  rw [complaints, checkLines, List.zipIdx_cons, List.filter_cons_of_pos (by simpa using hline),
    checkLine_of_some number h]
  rfl

/-- As many lines complain as there are forms that are no programs. -/
theorem length_complaints
    (number : Nat) (forms : List Value) :
    (complaints number (checkLines number forms)).length =
      (forms.filter fun form => (complaint? form).isSome).length := by
  induction forms generalizing number with
  | nil => rfl
  | cons form forms ih =>
      cases hform : complaint? form with
      | none =>
          rw [complaints_cons_of_none number forms hform, ih,
            List.filter_cons_of_neg (by simp [hform])]
      | some e =>
          rw [complaints_cons_of_some number forms hform, List.length_cons, ih,
            List.filter_cons_of_pos (by simp [hform]), List.length_cons]

/-- The first line that complains is that of the first form that is no program. -/
theorem head?_complaints
    (number : Nat)
    (hbefore : ∀ form ∈ before, complaint? form = none)
    (hform : complaint? form = some e) :
    (complaints number (checkLines number (before ++ form :: after))).head? =
      some
        ("form " ++ toString (number + before.length) ++ ": " ++ e.message,
          number + before.length) := by
  induction before generalizing number with
  | nil =>
      rw [List.nil_append, complaints_cons_of_some number after hform]
      rfl
  | cons first before ih =>
      obtain ⟨hfirst, hbefore⟩ := List.forall_mem_cons.1 hbefore
      have hnumber : number + 1 + before.length = number + (first :: before).length := by
        rw [List.length_cons]
        omega
      rw [List.cons_append, complaints_cons_of_none number _ hfirst, ih (number + 1) hbefore,
        hnumber]

end Complaints

section Failures

variable {forms : List Value} {e : ParseError}

theorem length_refused_eq_zero_iff :
    (forms.filter fun form => (complaint? form).isSome).length = 0 ↔
      ∃ nodes, Node.ofValues forms = .ok nodes := by
  rw [Node.exists_ofValues_iff, List.length_eq_zero_iff, List.filter_eq_nil_iff]
  refine forall₂_congr fun form _ => ?_
  rw [← complaint?_eq_none_iff, Bool.not_eq_true, Option.isSome_eq_false_iff,
    Option.isNone_iff_eq_none]

/-- A check of some forms succeeds exactly if all of them are programs. -/
theorem checkFailure?_eq_none_iff :
    checkFailure? forms = none ↔ ∃ nodes, Node.ofValues forms = .ok nodes := by
  rw [← length_refused_eq_zero_iff, checkFailure?]
  split
  · next hzero => exact ⟨fun _ => hzero, fun _ => rfl⟩
  · next hsome => exact ⟨nofun, fun hzero => absurd hzero hsome⟩

/-- A check that fails reports how many of its lines complain. -/
theorem checkFailure?_of_error
    (number : Nat)
    (h : Node.ofValues forms = .error e) :
    checkFailure? forms =
      some
        { message :=
            toString (complaints number (checkLines number forms)).length ++ " of "
              ++ toString (checkLines number forms).length ++ " forms failed to parse"
          cause := none } := by
  have hfailed : ¬ (forms.filter fun form => (complaint? form).isSome).length = 0 := by
    rw [length_refused_eq_zero_iff, h]
    nofun
  rw [length_complaints, length_checkLines, checkFailure?, if_neg hfailed]

end Failures

end CommandLine
end TaskTree
