import TaskTree.Proofs.CommandLine.Agreement
import TaskTree.Proofs.Json.Lines
import TaskTree.Proofs.Node.Json
import TaskTree.Proofs.Node.RoundTrip

/-!
# One line for each form

In the source notation and in compact JSON, what is written for a form of a text is one line,
whatever its strings hold.  So the output of a command is as many lines as the text has forms, in
their order, and it can be cut into these lines again in no other way.

**Results.**
* `Value.newline_not_mem_render`, `Node.newline_not_mem_render`: renderings of one line.
* `CommandLine.Framed.unique`: an output consists of one sequence of lines.
* `CommandLine.output_framed`: the lines that each command writes.
-/

namespace TaskTree

/-- What is written takes one line: in the source notation, and in compact JSON. -/
def OutputConfig.OneLine (config : OutputConfig) : Prop :=
  config.format = .sexpr ∨ config.format = .json ∧ config.pretty = false

section Renderings

variable {config : OutputConfig} {json : Json}

theorem Json.Standard.newline_not_mem_written
    (h : json.Standard) :
    '\n' ∉ (json.written false).toList := by
  rw [Json.written, String.toList_ofList]
  exact h.newline_not_mem_compact

theorem Value.newline_not_mem_render
    {value : Value}
    (h : value.Everywhere Value.Spelled)
    (hconfig : config.OneLine) :
    '\n' ∉ (value.render config).toList := by
  rw [Value.render]
  rcases hconfig with hformat | ⟨hformat, hpretty⟩
  · rw [hformat]
    dsimp only
    rw [Value.written, String.toList_ofList]
    exact Value.newline_not_mem_chars h
  · rw [hformat, hpretty]
    exact value.standard_toJson.newline_not_mem_written

/-- A program is written as the value that it stands for. -/
theorem Node.newline_not_mem_render
    {node : Node}
    (h : node.toValue.Everywhere Value.Spelled)
    (hconfig : config.OneLine) :
    '\n' ∉ (node.render config).toList := by
  rw [Node.render]
  rcases hconfig with hformat | ⟨hformat, hpretty⟩
  · rw [hformat]
    dsimp only
    rw [Value.written, String.toList_ofList]
    exact Value.newline_not_mem_chars h
  · rw [hformat, hpretty]
    exact node.standard_toJson.newline_not_mem_written

/-- Every program of some values is that of one of them. -/
theorem Node.exists_of_mem_ofValues
    {values : List Value} {nodes : List Node} {node : Node}
    (h : List.Forall₂ (fun value node => ofValue value = .ok node) values nodes)
    (hmem : node ∈ nodes) :
    ∃ value ∈ values, ofValue value = .ok node := by
  induction h with
  | nil => cases hmem
  | @cons value first values nodes hfirst _ ih =>
      rcases List.mem_cons.1 hmem with rfl | hmem
      · exact ⟨value, List.mem_cons_self, hfirst⟩
      · obtain ⟨value', hvalue', h⟩ := ih hmem
        exact ⟨value', List.mem_cons_of_mem _ hvalue', h⟩

/-- The program of a form has names that are spelled as what they are, if the form has. -/
theorem Node.spelled_of_ofValue
    {value : Value} {node : Node}
    (hspelled : value.Everywhere Value.Spelled)
    (h : ofValue value = .ok node) :
    node.toValue.Everywhere Value.Spelled :=
  (ofValue_eq_ok_iff.1 h).everywhere_toValue Value.rebuildInvariant_spelled hspelled

end Renderings

namespace CommandLine

section Lines

variable {output : String} {lines lines' : List String}

/-- The output is these lines, each with its end and with no other one in it. -/
structure Framed (output : String) (lines : List String) : Prop where
  output : output = textOfLines lines
  oneLine : ∀ line ∈ lines, '\n' ∉ line.toList

theorem toList_textOfLines
    (lines : List String) :
    (textOfLines lines).toList = lines.flatMap fun line => line.toList ++ ['\n'] := by
  simp [textOfLines, String.toList_join, List.flatMap_map]

/-- The first line of a text ends at the first line end. -/
theorem takeWhile_line
    {line : List Char}
    (h : '\n' ∉ line)
    (rest : List Char) :
    (line ++ '\n' :: rest).takeWhile (· != '\n') = line := by
  have hall : ∀ c ∈ line, (c != '\n') = true := by
    intro c hc
    exact bne_iff_ne.2 fun heq => h (heq ▸ hc)
  rw [List.takeWhile_append_of_pos hall]
  simp

theorem lines_of_textOfLines
    (h : ∀ line ∈ lines, '\n' ∉ line.toList)
    (h' : ∀ line ∈ lines', '\n' ∉ line.toList)
    (htext : textOfLines lines = textOfLines lines') :
    lines = lines' := by
  replace htext := congrArg String.toList htext
  rw [toList_textOfLines, toList_textOfLines] at htext
  induction lines generalizing lines' with
  | nil =>
      cases lines' with
      | nil => rfl
      | cons line' lines' => simp at htext
  | cons line lines ih =>
      cases lines' with
      | nil => simp at htext
      | cons line' lines' =>
          obtain ⟨hline, h⟩ := List.forall_mem_cons.1 h
          obtain ⟨hline', h'⟩ := List.forall_mem_cons.1 h'
          simp only [List.flatMap_cons, List.append_assoc, List.singleton_append] at htext
          have hfirst : line.toList = line'.toList := by
            rw [← takeWhile_line hline, htext, takeWhile_line hline']
          rw [hfirst] at htext
          have hrest := List.tail_eq_of_cons_eq (List.append_cancel_left htext)
          rw [String.toList_inj.1 hfirst, ih h h' hrest]

/-- An output consists of no other lines. -/
theorem Framed.unique
    (h : Framed output lines)
    (h' : Framed output lines') :
    lines = lines' :=
  lines_of_textOfLines h.oneLine h'.oneLine (h.output.symm.trans h'.output)

end Lines

section Output

variable {surroundings : Surroundings} {options : Options} {command : Command}
variable {input source : String} {config : OutputConfig} {args : List String}
variable {forms : List Value} {nodes : List Node}

/-- The line of a form in the report of a check starts with its number. -/
theorem getElem_checkLines
    (number i : Nat)
    (h : i < (checkLines number forms).length) :
    ∃ rest, (checkLines number forms)[i] = "form " ++ toString (number + i) ++ ": " ++ rest := by
  induction forms generalizing number i with
  | nil => simp [checkLines] at h
  | cons form forms ih =>
      cases i with
      | zero => exact ⟨_, rfl⟩
      | succ i =>
          obtain ⟨rest, hrest⟩ := ih (number + 1) i (by simpa [checkLines] using h)
          refine ⟨rest, ?_⟩
          rw [Nat.add_right_comm, Nat.add_assoc] at hrest
          simpa [checkLines] using hrest

theorem framed_check
    (hargs : Invocation.ofArgs? args = some ⟨options, .check, input⟩)
    (hloads : Loads surroundings options input config source)
    (hread : Value.readAll source = .ok forms) :
    Framed (run surroundings args).output (checkLines 1 forms) := by
  refine ⟨?_, newline_not_mem_checkLines 1 (Value.readInvariant_spelled.of_readAll hread)⟩
  rw [run_check_of_ok hargs hloads hread]
  cases checkFailure? forms <;> rfl

theorem framed_read
    (hargs : Invocation.ofArgs? args = some ⟨options, .read, input⟩)
    (hloads : Loads surroundings options input config source)
    (hconfig : config.OneLine)
    (hread : Value.readAll source = .ok forms) :
    Framed (run surroundings args).output (forms.map (Value.render config)) := by
  refine ⟨by rw [run_read_of_ok hargs hloads hread], List.forall_mem_map.2 fun form hform => ?_⟩
  exact Value.newline_not_mem_render (Value.readInvariant_spelled.of_readAll hread form hform)
    hconfig

theorem framed_parse
    (hargs : Invocation.ofArgs? args = some ⟨options, .parse, input⟩)
    (hloads : Loads surroundings options input config source)
    (hconfig : config.OneLine)
    (hread : Value.readAll source = .ok forms)
    (hnodes : Node.ofValues forms = .ok nodes) :
    Framed (run surroundings args).output (nodes.map (Node.render config)) := by
  have hparse := Node.parseAll_eq_ok_iff.2 ⟨forms, hread, hnodes⟩
  rw [Node.ofValues_eq_mapM, mapM_eq_ok_iff] at hnodes
  refine ⟨by rw [run_parse_of_ok hargs hloads hparse], List.forall_mem_map.2 fun node hnode => ?_⟩
  obtain ⟨form, hform, hnode⟩ := Node.exists_of_mem_ofValues hnodes hnode
  have hspelled := Value.readInvariant_spelled.of_readAll hread form hform
  exact Node.newline_not_mem_render (Node.spelled_of_ofValue hspelled hnode) hconfig

/-- What is written for one form of a text has no line end in it. -/
theorem newline_not_mem_output
    {form : Value}
    (hread : Value.readAll source = .ok forms)
    (hform : form ∈ forms) :
    (config.OneLine → '\n' ∉ (form.render config).toList ∧
        ∀ node, Node.ofValue form = .ok node → '\n' ∉ (node.render config).toList) ∧
      ∀ e, Node.ofValue form = .error e → '\n' ∉ e.message.toList := by
  have hspelled := Value.readInvariant_spelled.of_readAll hread form hform
  refine ⟨fun hconfig => ⟨Value.newline_not_mem_render hspelled hconfig, fun node hnode => ?_⟩,
    fun e he => Node.newline_not_mem_message hspelled he⟩
  exact Node.newline_not_mem_render (Node.spelled_of_ofValue hspelled hnode) hconfig

/-- Every command writes one line for each form of its text: a check always, and the others if they
succeed and what they write for one form is one line.  The lines of a check start with the numbers
of their forms, the lines of the others are the forms or their programs as they are written out. -/
theorem output_framed
    (hargs : Invocation.ofArgs? args = some ⟨options, command, input⟩)
    (hloads : Loads surroundings options input config source) :
    (command = .check → ∀ forms, Value.readAll source = .ok forms →
        ∃ lines, Framed (run surroundings args).output lines ∧ lines.length = forms.length ∧
          ∀ i (h : i < lines.length),
            ∃ rest, lines[i] = "form " ++ toString (i + 1) ++ ": " ++ rest) ∧
      (command ≠ .check → config.OneLine → (run surroundings args).code = 0 →
        ∃ forms, Value.readAll source = .ok forms ∧
          (command = .read →
            Framed (run surroundings args).output (forms.map (Value.render config))) ∧
          (command = .parse →
            ∃ nodes, List.Forall₂ (fun form node => Node.ofValue form = .ok node) forms nodes ∧
              Framed (run surroundings args).output (nodes.map (Node.render config)))) ∧
      ∀ forms, Value.readAll source = .ok forms → ∀ form ∈ forms,
        (config.OneLine → '\n' ∉ (form.render config).toList ∧
            ∀ node, Node.ofValue form = .ok node → '\n' ∉ (node.render config).toList) ∧
          ∀ e, Node.ofValue form = .error e → '\n' ∉ e.message.toList := by
  refine ⟨?check, ?others, fun forms hread form hform => newline_not_mem_output hread hform⟩
  case check =>
    rintro rfl forms hread
    refine ⟨checkLines 1 forms, framed_check hargs hloads hread, length_checkLines 1 forms,
      fun i h => ?_⟩
    obtain ⟨rest, hrest⟩ := getElem_checkLines 1 i h
    exact ⟨rest, by rw [hrest, Nat.add_comm]⟩
  case others =>
    intro hcommand hconfig hcode
    cases command with
    | check => exact absurd rfl hcommand
    | read =>
        cases hread : Value.readAll source with
        | error e =>
            rw [run_read_of_error hargs hloads hread] at hcode
            cases hcode
        | ok forms => exact ⟨forms, rfl, fun _ => framed_read hargs hloads hconfig hread, nofun⟩
    | parse =>
        obtain ⟨nodes, hparse⟩ := (code_parse_iff hargs hloads).1 hcode
        obtain ⟨forms, hread, hnodes⟩ := Node.parseAll_eq_ok_iff.1 hparse
        refine ⟨forms, hread, nofun, fun _ => ⟨nodes, ?_, ?_⟩⟩
        · rwa [Node.ofValues_eq_mapM, mapM_eq_ok_iff] at hnodes
        · exact framed_parse hargs hloads hconfig hread hnodes

/-- A text of two forms with a line end in a string, on the standard input. -/
def brokenLine : Surroundings :=
  ⟨fun _ => .error .notFound, "\"a\nb\" (f)".toUTF8⟩

/-- The string takes one line of the output, although it takes two lines of the text. -/
theorem output_framed_of_brokenLine :
    (run brokenLine ["-f", "sexpr", "read", "-"]).code = 0 ∧
      Framed (run brokenLine ["-f", "sexpr", "read", "-"]).output ["\"a\\nb\"", "(f)"] := by
  have hargs : Invocation.ofArgs? ["-f", "sexpr", "read", "-"]
      = some ⟨⟨none, some .sexpr, false⟩, .read, "-"⟩ := by decide
  have hloads : Loads brokenLine ⟨none, some .sexpr, false⟩ "-" ⟨.sexpr, true⟩ "\"a\nb\" (f)" :=
    ⟨rfl, loadInput_toUTF8 _ _⟩
  have hnext : Lexeme.next '"' "a\nb\" (f)".toList
      = (.atom (.string "a\nb"), " (f)".toList) := by
    have hdecode : Quoted.decode "a\nb\" (f)".toList = .ok ("a\nb".toList, " (f)".toList) := by
      simp [Quoted.decode_plain, Quoted.decode_quote, Except.map]
    simp only [Lexeme.next, hdecode]
    rfl
  have hread : Value.readAll "\"a\nb\" (f)" = .ok [.string "a\nb", .list [.symbol "f"]] := by
    have hsource : "\"a\nb\" (f)".toList = '"' :: "a\nb\" (f)".toList := rfl
    rw [Value.readAll_eq_ok_iff, hsource, Progress.read_eq_bind (by decide) (by decide), hnext]
    with_unfolding_all rfl
  have hlines : [.string "a\nb", .list [.symbol "f"]].map (Value.render ⟨.sexpr, true⟩)
      = ["\"a\\nb\"", "(f)"] := by decide
  have hcode : (run brokenLine ["-f", "sexpr", "read", "-"]).code = 0 := by
    rw [run_read_of_ok hargs hloads hread]
  obtain ⟨-, hothers, -⟩ := output_framed hargs hloads
  obtain ⟨forms, hforms, hframed, -⟩ := hothers (by decide) (.inl rfl) hcode
  cases hread.symm.trans hforms
  exact ⟨hcode, hlines ▸ hframed rfl⟩

end Output

end CommandLine
end TaskTree
