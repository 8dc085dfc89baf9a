import BlockVerilog.Proofs.Pass.Printed

/-!
Displayed texts arrive intact.

Whatever a text holds, its display is one line of the code, behind the indentation of the bodies
around it: escapes leave no line break in it, and it ends in a character that no cleanup takes.
-/

namespace BlockVerilog

open Text

namespace Text

/-- The last cleanup keeps a line that has no blanks at its end. -/
theorem IsBlock.sublist_tidied {held : List (List Char)} {text : String} (block : IsBlock text)
    (clean : ∀ line ∈ held, dropWhileEnd isSpaceOrTab line = line)
    (holds : held.Sublist (fullLines text.toList)) :
    held.Sublist (lines (tidied text).toList) := by
  rw [block.toList_tidied, lines_stripLineEnds]
  have kept : held.map (dropWhileEnd isSpaceOrTab) = held :=
    (List.map_congr_left clean).trans (List.map_id held)
  rw [← kept]
  exact (holds.trans (fullLines_sublist_lines _)).map _

end Text

/-- A line is the indentation and the call that displays the text. The first quotation mark that no
backslash escapes closes the literal, and the literal is read as the text. -/
def Display.IsLine (indent : String) (display : Display) (line : List Char) : Prop :=
  ∃ literal : List Char,
    line = (List.replicate display.depth indent.toList).flatten ++
      "$display(\"".toList ++ literal ++ "\");".toList ∧
    '\n' ∉ literal ∧
    readLiteral? (literal ++ "\");".toList) = some (display.text.toList, ");".toList)

/-- The displays that a pass prints, in order. -/
def Graph.displays (g : Graph) (roots : List NodeId) : List Display :=
  (g.printed roots).filterMap g.display?

namespace Generator

variable {gen : Generator}

theorem isLine_lineOf (display : Display) :
    display.IsLine gen.config.indent (gen.lineOf display) := by
  refine ⟨escapeLiteral display.text.toList, ?_, newline_not_mem_escapeLiteral _,
    readLiteral?_escapeLiteral _ _⟩
  simp [lineOf, displayStatement]

theorem dropWhileEnd_lineOf (display : Display) :
    dropWhileEnd isSpaceOrTab (gen.lineOf display) = gen.lineOf display := by
  have ended : gen.lineOf display = (List.replicate display.depth gen.config.indent.toList).flatten ++
      ("$display(\"" ++ String.ofList (escapeLiteral display.text.toList)).toList ++
        "\");".toList := by
    simp [lineOf, displayStatement]
  rw [ended, dropWhileEnd_append, if_neg (by decide)]
  rfl

/-- What is printed holds the lines of its displays, also after the last cleanup. -/
theorem sublist_of_shows {roots : List NodeId} {text : String}
    (shows : gen.Shows (gen.graph.printed roots) text) (oneLine : gen.IndentsLines) :
    ((gen.graph.displays roots).map gen.lineOf).Sublist (lines (tidied text).toList) := by
  have held : ((gen.graph.displays roots).map gen.lineOf).Sublist _ := shows.lines oneLine
  rcases shows.blocks with rfl | block
  · have none : fullLines "".toList = [] := rfl
    rw [none, List.sublist_nil] at held
    rw [held]
    exact List.nil_sublist _
  · refine block.sublist_tidied ?_ held
    rw [List.forall_mem_map]
    exact fun display _ => dropWhileEnd_lineOf display

/-- A time scale has no part in what is shown. -/
theorem Shows.timed {entries : List Printed} {text : String} (shows : gen.Shows entries text)
    (scale : String) : (gen.timed scale).Shows entries text :=
  ⟨shows.blocks, shows.nonempty, shows.lines⟩

/-- Code is what is printed, after the last cleanup, with or without a time scale. -/
theorem exists_shown (builtin : gen.table = .builtin) {roots : List NodeId} {code : String}
    (ran : gen.code roots = .ok code) :
    ∃ text, gen.Shows (gen.graph.printed roots) text ∧ code = tidied text := by
  obtain ⟨g, table, indent, commentWrap, timescale, reserved⟩ := gen
  let plain : Generator := ⟨g, table, indent, commentWrap, none, reserved⟩
  have passes : ∀ scale, _ := fun scale => @code_timed plain scale builtin rfl roots
  cases timescale with
  | none =>
      rcases passes "" with ⟨e, failed, _⟩ | ⟨body, shows, given, _⟩
      · cases ran.symm.trans failed
      · exact ⟨body, shows, Except.ok.inj (ran.symm.trans given)⟩
  | some scale =>
      rcases passes scale with ⟨e, _, failed⟩ | ⟨body, shows, _, given⟩
      · cases ran.symm.trans failed
      · exact ⟨_, (shows.declared scale).timed scale, Except.ok.inj (ran.symm.trans given)⟩

end Generator

/-- Each display that is printed has a line of its own in the code, from which the text can be read
back. -/
theorem exists_displayLines {g : Graph} {roots : List NodeId} {config : Config} {code : String}
    (oneLine : '\n' ∉ config.indent.toList) (ran : generate g roots config = .ok code) :
    ∃ found, found.Sublist (lines code.toList) ∧
      List.Forall₂ (Display.IsLine config.indent) (g.displays roots) found := by
  obtain ⟨text, shows, rfl⟩ := Generator.exists_shown rfl ran
  refine ⟨_, Generator.sublist_of_shows shows oneLine, ?_⟩
  rw [List.forall₂_map_right_iff, List.forall₂_same]
  exact fun display _ => Generator.isLine_lineOf display

/-- Two displays in a delay in an initial block. -/
def announced : Graph where
  nodes := #[
    { Node.blank "intial" .statement with statements := .ofList [("body", some 1)] },
    { Node.blank "time_block" .statement with statements := .ofList [("arg2", some 2)] },
    { Node.blank "display_block" .statement with
      fields := .ofList [("text", .text "\\\" \n")], next := some 3 },
    { Node.blank "display_block" .statement with fields := .ofList [("text", .text "// ] \\")] }]
  vars := []

def announcedCode : String :=
  "`timescale 1ns\n\n\ninitial begin\n\t #1\n\t \t $display(\"\\\\\\\" \\n\");\n" ++
    "\t \t $display(\"// ] \\\\\");\nend\n"

theorem announced_displayLines :
    '\n' ∉ "\t ".toList ∧ generate announced [0] ⟨"\t ", 60, some "1ns", []⟩ = .ok announcedCode ∧
      announced.displays [0] = [⟨2, "\\\" \n"⟩, ⟨2, "// ] \\"⟩] ∧
      ∃ found, found.Sublist (lines announcedCode.toList) ∧
        List.Forall₂ (Display.IsLine "\t ") (announced.displays [0]) found := by
  have oneLine : '\n' ∉ "\t ".toList := by decide
  have ran : generate announced [0] ⟨"\t ", 60, some "1ns", []⟩ = .ok announcedCode := by cbv
  have found := @exists_displayLines announced [0] ⟨"\t ", 60, some "1ns", []⟩ _ oneLine ran
  exact ⟨oneLine, ran, by decide, found⟩

end BlockVerilog
