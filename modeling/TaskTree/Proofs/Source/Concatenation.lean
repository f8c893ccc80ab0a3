import TaskTree.Proofs.Program
import TaskTree.Proofs.Source.Grammar
import TaskTree.Proofs.Source.Places

/-!
# Reading one text after another

A text that can be read ends on a token, a separator or a comment, so nothing in it
reaches across the end of its last line.  What stands on the lines after it is read as
it is on its own, with the forms of the first text in front.

**Results.**
* `Progress.read_lines`: reading goes on behind a text as it does behind its forms.
* `Progress.foldlM_behind`: finished forms have no influence on what is read after them.
* `Value.readAll_lines`, `Value.readAll_lines_error`: so are the forms of a text on the lines
  behind another one, and its faults are found further on.
* `Value.readAll_concatenated`: forms, faults and programs of a text behind another one.
-/

namespace TaskTree

namespace Progress

/-- The same progress behind some finished forms, the last one first. -/
def behind (forms : List Value) (progress : Progress) : Progress :=
  { progress with forms := progress.forms ++ forms }

theorem behind_add
    (forms : List Value) (progress : Progress) (value : Value) :
    (progress.behind forms).add value = (progress.add value).behind forms := by
  rcases progress with ⟨finished, unclosed⟩
  cases unclosed <;> rfl

/-- One token does the same behind finished forms. -/
theorem step_behind
    (forms : List Value) (progress : Progress) (token : Token) :
    (progress.behind forms).step token = (progress.step token).map (behind forms) := by
  rcases progress with ⟨finished, unclosed⟩
  unfold step
  cases token.lexeme with
  | opening bracket => rfl
  | closing bracket =>
      cases unclosed with
      | nil => rfl
      | cons inner outer =>
          by_cases hbracket : inner.bracket = bracket
          · simp only [behind, if_pos hbracket]
            cases inner.close with
            | ok value =>
                simp only [Except.map]
                exact congrArg _ (behind_add forms ⟨finished, outer⟩ value)
            | error failure => rfl
          · simp only [behind, if_neg hbracket]
            rfl
  | atom value => exact congrArg _ (behind_add forms ⟨finished, unclosed⟩ value)
  | broken failure => rfl

/-- So do all tokens of a text. -/
theorem foldlM_behind
    (forms : List Value) (progress : Progress) (tokens : List Token) :
    tokens.foldlM step (progress.behind forms) =
      (tokens.foldlM step progress).map (behind forms) := by
  induction tokens generalizing progress with
  | nil => rfl
  | cons token tokens ih =>
      rw [List.foldlM_cons, List.foldlM_cons, step_behind]
      cases progress.step token with
      | ok next => exact ih next
      | error failure => rfl

theorem finish_behind
    (forms : List Value) (progress : Progress) :
    (progress.behind forms).finish = progress.finish.map (forms.reverse ++ ·) := by
  rcases progress with ⟨finished, unclosed⟩
  cases unclosed with
  | nil =>
      unfold finish
      simp only [behind, List.reverse_append]
      rfl
  | cons inner outer => rfl

/-- The lines behind a text are read behind its forms. -/
theorem read_lines
    {source : String} {values : List Value}
    (h : Value.readAll source = .ok values)
    {more : List Char}
    (hmore : EndsLine more) :
    Progress.start.read (source.toList ++ more) = read ⟨values.reverse, []⟩ more := by
  obtain ⟨ts, hsplits, hderives⟩ := exists_derives_of_read (Value.readAll_eq_ok_iff.1 h)
  obtain ⟨tokens, hlexemes, htokens⟩ := hsplits.begins hderives.readable hmore
  rw [read, htokens, List.foldlM_append, hderives.foldlM hlexemes, ok_bind_eq, start,
    addAll_closed, List.append_nil]
  rfl

end Progress

/-- The forms of a text with more lines are its own forms and those of the lines. -/
theorem Token.forms_lines
    {source : String} {values : List Value}
    (h : Value.readAll source = .ok values)
    (s : List Char) :
    Token.forms (Token.ofText (source.toList ++ '\n' :: s)) =
      (Token.forms (Token.ofText s)).map (values ++ ·) := by
  have hline : EndsLine ('\n' :: s) := by simp [EndsLine]
  have hread := Progress.read_lines h hline
  -- behind a text nothing is open, so its forms are all that is left of it
  have hbehind : (⟨values.reverse, []⟩ : Progress) = Progress.start.behind values.reverse := rfl
  rw [Progress.read_separator rfl, hbehind, Progress.read, Progress.read,
    Progress.foldlM_behind] at hread
  unfold Token.forms
  rw [hread]
  cases (Token.ofText s).foldlM Progress.step Progress.start with
  | error failure => rfl
  | ok progress =>
      have hfinish := Progress.finish_behind values.reverse progress
      rwa [List.reverse_reverse] at hfinish

namespace Value

section Lines

variable {a b : String} {xs ys : List Value}

theorem toList_lines
    (a b : String) :
    (a ++ "\n" ++ b).toList = a.toList ++ '\n' :: b.toList := by
  simp

theorem readAll_lines
    (ha : readAll a = .ok xs)
    (hb : readAll b = .ok ys) :
    readAll (a ++ "\n" ++ b) = .ok (xs ++ ys) := by
  rw [readAll, mapError_eq_ok_iff] at hb ⊢
  rw [toList_lines, Token.forms_lines ha, hb]
  rfl

/-- A fault behind another text is found as far on as that text and the end of its line. -/
theorem readAll_lines_error
    {e : ReadError}
    (ha : readAll a = .ok xs)
    (hb : readAll b = .error e) :
    readAll (a ++ "\n" ++ b) = .error ⟨e.fault, e.offset + a.utf8ByteSize + 1⟩ := by
  obtain ⟨failure, hfailure, rfl⟩ := mapError_eq_error_iff.1 hb
  -- what is left at the failure is an end of the second text, so only the length before it changes
  have hplace := ReadFailure.locate_append (Token.suffix_of_forms hfailure) (a.toList ++ ['\n'])
  have hline : a.toList ++ ['\n'] ++ b.toList = a.toList ++ '\n' :: b.toList := by simp
  have hlength : Text.byteLength (a.toList ++ ['\n']) = a.utf8ByteSize + 1 := by
    rw [Text.byteLength_append, Text.byteLength_toList]
    rfl
  rw [hline, hlength, ← Nat.add_assoc] at hplace
  rw [readAll, toList_lines, Token.forms_lines ha, hfailure, ← hplace]
  rfl

end Lines

/-- A text and another one on the lines behind it are read one after the other: the forms of both
in order, the first fault of the second with its place moved by the first and the end of its line,
and the programs of both in order. -/
theorem readAll_concatenated
    (a b : String) :
    (∀ xs ys, readAll a = .ok xs → readAll b = .ok ys →
        readAll (a ++ "\n" ++ b) = .ok (xs ++ ys)) ∧
      (∀ xs e, readAll a = .ok xs → readAll b = .error e →
        readAll (a ++ "\n" ++ b) = .error ⟨e.fault, e.offset + a.utf8ByteSize + 1⟩) ∧
        ∀ ns ms, Node.parseAll a = .ok ns → Node.parseAll b = .ok ms →
          Node.parseAll (a ++ "\n" ++ b) = .ok (ns ++ ms) := by
  refine ⟨fun xs ys => readAll_lines, fun xs e => readAll_lines_error, fun ns ms hns hms => ?_⟩
  obtain ⟨xs, hxs, hns⟩ := Node.parseAll_eq_ok_iff.1 hns
  obtain ⟨ys, hys, hms⟩ := Node.parseAll_eq_ok_iff.1 hms
  exact Node.parseAll_eq_ok_iff.2
    ⟨xs ++ ys, readAll_lines hxs hys, Node.ofValues_append hns hms⟩

/-- A comment that is not ended, and a letter of two bytes, before a form and before a fault. -/
theorem readAll_concatenated_of_comment :
    (readAll "é ; (" = .ok [.symbol "é"] ∧ readAll "(f)" = .ok [.list [.symbol "f"]] ∧
        readAll ("é ; (" ++ "\n" ++ "(f)") = .ok [.symbol "é", .list [.symbol "f"]] ∧
        Node.parseAll ("é ; (" ++ "\n" ++ "(f)") = .ok [.symbol ⟨"é"⟩, .call [.symbol ⟨"f"⟩]]) ∧
      readAll "f {:k}" = .error ⟨.unevenMap, 2⟩ ∧
        readAll ("é ; (" ++ "\n" ++ "f {:k}") = .error ⟨.unevenMap, 9⟩ := by
  have hfirst : readAll "é ; (" = .ok [.symbol "é"] := by with_unfolding_all rfl
  have hform : readAll "(f)" = .ok [.list [.symbol "f"]] := by with_unfolding_all rfl
  have hfault : readAll "f {:k}" = .error ⟨.unevenMap, 2⟩ := by with_unfolding_all rfl
  obtain ⟨hforms, -, hprograms⟩ := readAll_concatenated "é ; (" "(f)"
  obtain ⟨-, hmoved, -⟩ := readAll_concatenated "é ; (" "f {:k}"
  have hnodes := hprograms [.symbol ⟨"é"⟩] [.call [.symbol ⟨"f"⟩]]
    (Node.parseAll_eq_ok_iff.2 ⟨_, hfirst, rfl⟩) (Node.parseAll_eq_ok_iff.2 ⟨_, hform, rfl⟩)
  exact ⟨⟨hfirst, hform, hforms _ _ hfirst hform, hnodes⟩, hfault, hmoved _ _ hfirst hfault⟩

end Value

end TaskTree
