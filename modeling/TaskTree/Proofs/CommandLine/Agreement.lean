import TaskTree.Proofs.CommandLine.Report

/-!
# The commands agree

`parse` understands the forms of an input until one is refused, `check` goes on and
reports every form.  Whatever the input is, they succeed together: when every form
can be read and every form is a program.

**Results.**
* `CommandLine.code_parse_iff`, `CommandLine.code_check_iff`: when the commands succeed.
* `CommandLine.run_of_not_loads`: what does not load fails both commands alike.
* `CommandLine.reports_of_refused`: a check that fails reports how many lines complain, and the
  first complaint is what `parse` fails with.
* `CommandLine.parse_check_agree`: all of this for two runs with the same options.
-/

namespace TaskTree
namespace CommandLine

section Failures

namespace Failure

/-- A text without line ends has no lines to indent. -/
theorem indented_eq_self
    {s : List Char}
    (h : '\n' ∉ s) :
    indented s = s := by
  induction s with
  | nil => rfl
  | cons c s ih =>
      obtain ⟨hc, hs⟩ := not_or.1 (List.mem_cons.not.1 h)
      rw [indented, ih hs]
      exact Ne.symm hc

theorem report_parse
    (source : String) {e : ParseError}
    (h : '\n' ∉ e.message.toList) :
    report (.ofError (.parse source e)) =
      "Error: " ++ (Error.parse source e).message ++ "\n" ++ "\nCaused by:\n    " ++ e.message
        ++ "\n" := by
  simp only [report, ofError, Error.cause?, indented_eq_self h, String.ofList_toList,
    String.append_assoc]

theorem report_message
    (message : String) :
    report ⟨message, none⟩ = "Error: " ++ message ++ "\n" := by
  simp only [report, String.append_empty]

end Failure

end Failures

/-- The configuration and the text that a command works on. -/
structure Loads (surroundings : Surroundings) (options : Options) (input : String)
    (config : OutputConfig) (source : String) : Prop where
  config : options.effective surroundings.files = .ok config
  source : loadInput surroundings input = .ok source

/-- Every text can be given on the standard input. -/
theorem loadInput_toUTF8
    (files : Files) (source : String) :
    loadInput ⟨files, source.toUTF8⟩ "-" = .ok source := by
  have hinput : isStandardInput "-" = true := by decide
  have hvalid : source.toUTF8.IsValidUTF8 := source.isValidUTF8
  rw [loadInput, if_pos hinput, textOfBytes, String.fromUTF8?, dif_pos hvalid]
  rfl

section Runs

variable {surroundings : Surroundings} {options : Options} {input source : String}
variable {config : OutputConfig} {args : List String} {nodes : List Node} {forms : List Value}

theorem Loads.perform_parse
    (h : Loads surroundings options input config source) :
    perform surroundings ⟨options, .parse, input⟩ =
      ((Node.parseAll source).mapError Failure.ofError).map fun nodes =>
        (nodes.map (Node.render config), none) := by
  rw [perform, h.config, ok_bind_eq, h.source, ok_bind_eq]
  cases Node.parseAll source <;> rfl

theorem Loads.perform_check
    (h : Loads surroundings options input config source) :
    perform surroundings ⟨options, .check, input⟩ =
      (readInput input source).map fun forms => (checkLines 1 forms, checkFailure? forms) := by
  rw [perform, h.config, ok_bind_eq, h.source, ok_bind_eq]
  cases readInput input source <;> rfl

theorem Loads.perform_read
    (h : Loads surroundings options input config source) :
    perform surroundings ⟨options, .read, input⟩ =
      (readInput input source).map fun forms => (forms.map (Value.render config), none) := by
  rw [perform, h.config, ok_bind_eq, h.source, ok_bind_eq]
  cases readInput input source <;> rfl

/-- The outcome of a run is that of the command that the arguments ask for. -/
theorem run_of_perform
    {invocation : Invocation}
    (hargs : Invocation.ofArgs? args = some invocation) :
    run surroundings args =
      match perform surroundings invocation with
      | .ok (lines, none) => ⟨0, textOfLines lines, ""⟩
      | .ok (lines, some failure) => ⟨1, textOfLines lines, failure.report⟩
      | .error failure => ⟨1, "", failure.report⟩ := by
  cases hperform : perform surroundings invocation with
  | error failure => simp only [run, hargs, hperform]
  | ok written =>
      rcases written with ⟨lines, _ | failure⟩ <;> simp only [run, hargs, hperform]

theorem run_parse_of_ok
    (hargs : Invocation.ofArgs? args = some ⟨options, .parse, input⟩)
    (hloads : Loads surroundings options input config source)
    (h : Node.parseAll source = .ok nodes) :
    run surroundings args = ⟨0, textOfLines (nodes.map (Node.render config)), ""⟩ := by
  rw [run_of_perform hargs, hloads.perform_parse, h]
  rfl

/-- What `parse` does not understand leaves nothing on the standard output. -/
theorem run_parse_of_error
    {error : Error}
    (hargs : Invocation.ofArgs? args = some ⟨options, .parse, input⟩)
    (hloads : Loads surroundings options input config source)
    (h : Node.parseAll source = .error error) :
    run surroundings args = ⟨1, "", (Failure.ofError error).report⟩ := by
  rw [run_of_perform hargs, hloads.perform_parse, h]
  rfl

theorem run_check_of_ok
    (hargs : Invocation.ofArgs? args = some ⟨options, .check, input⟩)
    (hloads : Loads surroundings options input config source)
    (h : Value.readAll source = .ok forms) :
    run surroundings args =
      match checkFailure? forms with
      | none => ⟨0, textOfLines (checkLines 1 forms), ""⟩
      | some failure => ⟨1, textOfLines (checkLines 1 forms), failure.report⟩ := by
  rw [run_of_perform hargs, hloads.perform_check, readInput, h]
  simp only [Except.mapError, Except.map]
  cases checkFailure? forms <;> rfl

theorem run_check_of_error
    {e : ReadError}
    (hargs : Invocation.ofArgs? args = some ⟨options, .check, input⟩)
    (hloads : Loads surroundings options input config source)
    (h : Value.readAll source = .error e) :
    run surroundings args = ⟨1, "", (Failure.reading input e.message).report⟩ := by
  rw [run_of_perform hargs, hloads.perform_check, readInput, h]
  rfl

theorem run_read_of_ok
    (hargs : Invocation.ofArgs? args = some ⟨options, .read, input⟩)
    (hloads : Loads surroundings options input config source)
    (h : Value.readAll source = .ok forms) :
    run surroundings args = ⟨0, textOfLines (forms.map (Value.render config)), ""⟩ := by
  rw [run_of_perform hargs, hloads.perform_read, readInput, h]
  rfl

theorem run_read_of_error
    {e : ReadError}
    (hargs : Invocation.ofArgs? args = some ⟨options, .read, input⟩)
    (hloads : Loads surroundings options input config source)
    (h : Value.readAll source = .error e) :
    run surroundings args = ⟨1, "", (Failure.reading input e.message).report⟩ := by
  rw [run_of_perform hargs, hloads.perform_read, readInput, h]
  rfl

/-- What does not load fails every command, before any output. -/
theorem run_of_not_loads
    {command : Command}
    (hargs : Invocation.ofArgs? args = some ⟨options, command, input⟩)
    (h : ¬ ∃ config source, Loads surroundings options input config source) :
    (run surroundings args).code = 1 ∧ (run surroundings args).output = "" := by
  have hperform : ∃ failure, perform surroundings ⟨options, command, input⟩ = .error failure := by
    cases hconfig : options.effective surroundings.files with
    | error failure =>
        refine ⟨failure, ?_⟩
        rw [perform, hconfig]
        rfl
    | ok config =>
        cases hsource : loadInput surroundings input with
        | error failure =>
            refine ⟨failure, ?_⟩
            rw [perform, hconfig, ok_bind_eq, hsource]
            rfl
        | ok source => exact absurd ⟨config, source, hconfig, hsource⟩ h
  rcases hperform with ⟨failure, hperform⟩
  rw [run_of_perform hargs, hperform]
  exact ⟨rfl, rfl⟩

end Runs

section Agreement

variable {surroundings : Surroundings} {options : Options} {input source : String}
variable {config : OutputConfig} {args : List String} {forms : List Value} {e : ParseError}

/-- `parse` succeeds exactly if the text has programs. -/
theorem code_parse_iff
    (hargs : Invocation.ofArgs? args = some ⟨options, .parse, input⟩)
    (hloads : Loads surroundings options input config source) :
    (run surroundings args).code = 0 ↔ ∃ nodes, Node.parseAll source = .ok nodes := by
  cases hparse : Node.parseAll source with
  | ok nodes => simp [run_parse_of_ok hargs hloads hparse]
  | error error => simp [run_parse_of_error hargs hloads hparse]

/-- `check` succeeds exactly if the text has programs. -/
theorem code_check_iff
    (hargs : Invocation.ofArgs? args = some ⟨options, .check, input⟩)
    (hloads : Loads surroundings options input config source) :
    (run surroundings args).code = 0 ↔ ∃ nodes, Node.parseAll source = .ok nodes := by
  simp only [Node.parseAll_eq_ok_iff]
  cases hread : Value.readAll source with
  | error e => simp [run_check_of_error hargs hloads hread]
  | ok forms =>
      have hfailure := @checkFailure?_eq_none_iff forms
      rw [run_check_of_ok hargs hloads hread]
      cases hcheck : checkFailure? forms with
      | none => simpa [hcheck] using hfailure
      | some failure => simpa [hcheck] using hfailure

/-- A check that fails writes one line for each form and reports how many of them complain. -/
theorem run_check_of_refused
    (hargs : Invocation.ofArgs? args = some ⟨options, .check, input⟩)
    (hloads : Loads surroundings options input config source)
    (hread : Value.readAll source = .ok forms)
    (h : Node.ofValues forms = .error e) :
    run surroundings args =
      ⟨1, textOfLines (checkLines 1 forms),
        "Error: "
          ++ (toString (complaints 1 (checkLines 1 forms)).length ++ " of "
            ++ toString (checkLines 1 forms).length ++ " forms failed to parse")
          ++ "\n"⟩ := by
  rw [run_check_of_ok hargs hloads hread, checkFailure?_of_error 1 h]
  dsimp only
  rw [Failure.report_message]

/-- The report of a check whose forms are read but not all programs, next to what `parse` fails
with: every form has one line, as many lines complain as the report says, and the first complaint
is the cause of the failure of `parse`. -/
def Reports (source : String) (forms : List Value) (parsed checked : Outcome) : Prop :=
  ∃ lines number error,
    checked.output = textOfLines lines ∧ (∀ line ∈ lines, '\n' ∉ line.toList) ∧
      lines.length = forms.length ∧
      checked.errors =
        "Error: "
          ++ (toString (complaints 1 lines).length ++ " of " ++ toString lines.length
            ++ " forms failed to parse")
          ++ "\n" ∧
      (complaints 1 lines).head? =
        some ("form " ++ toString number ++ ": " ++ error.message, number) ∧
      Node.parseAll source = .error (.parse source error) ∧
      parsed.errors =
        "Error: " ++ (Error.parse source error).message ++ "\n" ++ "\nCaused by:\n    "
          ++ error.message ++ "\n"

theorem reports_of_refused
    {parseArgs checkArgs : List String}
    (hparse : Invocation.ofArgs? parseArgs = some ⟨options, .parse, input⟩)
    (hcheck : Invocation.ofArgs? checkArgs = some ⟨options, .check, input⟩)
    (hloads : Loads surroundings options input config source)
    (hread : Value.readAll source = .ok forms)
    (h : Node.ofValues forms = .error e) :
    Reports source forms (run surroundings parseArgs) (run surroundings checkArgs) := by
  have hspelled := Value.readInvariant_spelled.of_readAll hread
  have hfailed : Node.parseAll source = .error (.parse source e) :=
    Node.parseAll_eq_error_iff.2 (.inr ⟨forms, e, hread, h, rfl⟩)
  obtain ⟨before, form, after, rfl, hbefore, hform⟩ := Node.ofValues_eq_error_iff.1 h
  have hmessage := Node.newline_not_mem_message (hspelled form (by simp)) hform
  have hfirst : (complaints 1 (checkLines 1 (before ++ form :: after))).head? = _ :=
    head?_complaints 1 (fun v hv => complaint?_eq_none_iff.2 (hbefore v hv))
      (complaint?_eq_some_iff.2 hform)
  rw [Reports, run_check_of_refused hcheck hloads hread h,
    run_parse_of_error hparse hloads hfailed, Failure.report_parse source hmessage]
  exact ⟨checkLines 1 _, 1 + before.length, e, rfl, newline_not_mem_checkLines 1 hspelled,
    length_checkLines 1 _, rfl, hfirst, hfailed, rfl⟩

/-- With the same options, `parse` and `check` of the same input succeed together, and exactly if
every form of the text can be read and is a program.  If not every form is a program, the report
of the check fits its lines and the failure of `parse`, and `parse` writes nothing. -/
theorem parse_check_agree
    {parseArgs checkArgs : List String}
    (hparse : Invocation.ofArgs? parseArgs = some ⟨options, .parse, input⟩)
    (hcheck : Invocation.ofArgs? checkArgs = some ⟨options, .check, input⟩) :
    ((run surroundings parseArgs).code = 0 ↔ (run surroundings checkArgs).code = 0) ∧
      (∀ config source, Loads surroundings options input config source →
        ((run surroundings checkArgs).code = 0 ↔ ∃ nodes, Node.parseAll source = .ok nodes) ∧
          ∀ forms, Value.readAll source = .ok forms → (run surroundings checkArgs).code ≠ 0 →
            Reports source forms (run surroundings parseArgs) (run surroundings checkArgs)) ∧
      ((run surroundings parseArgs).code ≠ 0 → (run surroundings parseArgs).output = "") := by
  refine ⟨?_, fun config source hloads => ⟨code_check_iff hcheck hloads, ?_⟩, fun hfailed => ?_⟩
  · by_cases hloads : ∃ config source, Loads surroundings options input config source
    · obtain ⟨config, source, hloads⟩ := hloads
      exact (code_parse_iff hparse hloads).trans (code_check_iff hcheck hloads).symm
    · rw [(run_of_not_loads hparse hloads).1, (run_of_not_loads hcheck hloads).1]
  · intro forms hread hfailed
    rw [Ne, code_check_iff hcheck hloads] at hfailed
    cases hnodes : Node.ofValues forms with
    | ok nodes => exact absurd ⟨nodes, Node.parseAll_eq_ok_iff.2 ⟨forms, hread, hnodes⟩⟩ hfailed
    | error e => exact reports_of_refused hparse hcheck hloads hread hnodes
  · by_cases hloads : ∃ config source, Loads surroundings options input config source
    · obtain ⟨config, source, hloads⟩ := hloads
      rw [Ne, code_parse_iff hparse hloads] at hfailed
      cases hparsed : Node.parseAll source with
      | ok nodes => exact absurd ⟨nodes, hparsed⟩ hfailed
      | error error => rw [run_parse_of_error hparse hloads hparsed]
    · exact (run_of_not_loads hparse hloads).2

/-- A text of three forms of which two are no programs, on the standard input. -/
def threeForms : Surroundings :=
  ⟨fun _ => .error .notFound, "(f)\n(def) (g ())".toUTF8⟩

/-- Of the two complaints the first is the cause of the failure of `parse`. -/
theorem parse_check_agree_of_threeForms :
    (run threeForms ["check", "-"]).code = 1 ∧ (run threeForms ["parse", "-"]).output = "" ∧
      Reports "(f)\n(def) (g ())"
        [.list [.symbol "f"], .list [.symbol "def"], .list [.symbol "g", .list []]]
        (run threeForms ["parse", "-"]) (run threeForms ["check", "-"]) := by
  have hparse : Invocation.ofArgs? ["parse", "-"] = some ⟨.unset, .parse, "-"⟩ := by
    with_unfolding_all rfl
  have hcheck : Invocation.ofArgs? ["check", "-"] = some ⟨.unset, .check, "-"⟩ := by
    with_unfolding_all rfl
  have hloads : Loads threeForms .unset "-" .standard "(f)\n(def) (g ())" :=
    ⟨rfl, loadInput_toUTF8 _ _⟩
  have hread : Value.readAll "(f)\n(def) (g ())"
      = .ok [.list [.symbol "f"], .list [.symbol "def"], .list [.symbol "g", .list []]] := by
    with_unfolding_all rfl
  have hrefused : Node.ofValues
      [.list [.symbol "f"], .list [.symbol "def"], .list [.symbol "g", .list []]]
      = .error ⟨.invalidForm .definition, .list [.symbol "def"]⟩ := rfl
  have hcode : (run threeForms ["check", "-"]).code = 1 := by
    rw [run_check_of_refused hcheck hloads hread hrefused]
  have hfailed : (run threeForms ["check", "-"]).code ≠ 0 := by simp [hcode]
  obtain ⟨hsame, hloaded, hempty⟩ := @parse_check_agree threeForms _ _ _ _ hparse hcheck
  exact ⟨hcode, hempty (mt hsame.1 hfailed), (hloaded _ _ hloads).2 _ hread hfailed⟩

end Agreement

end CommandLine
end TaskTree
