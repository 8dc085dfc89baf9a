import BlockVerilog.Proofs.Pass.Printed

/-!
A time scale is declared once, in front of everything else.

Whichever statements delay and wherever they stand, the declaration is one line above the text that
a pass without a time scale gives. No other character changes.
-/

namespace BlockVerilog

open Text Handlers

namespace Text

theorem stripLineEnds_of_not_mem {line : List Char} (one : '\n' ∉ line) :
    stripLineEnds line = dropWhileEnd isSpaceOrTab line := by
  rw [stripLineEnds, lines_of_not_mem one, List.map_singleton]
  exact List.intercalate_singleton

/-- A line with two empty ones behind it, and then a text. -/
def headed (line text : String) : String :=
  String.ofList (dropWhileEnd isSpaceOrTab line.toList) ++ "\n\n\n" ++ text

end Text

/-- Of a declaration above a block, the last cleanup takes the blanks at its end. -/
theorem tidied_declared {scale body : String} (oneLine : '\n' ∉ scale.toList)
    (block : IsBlock body) :
    tidied (timescaleLine scale ++ "\n\n\n" ++ body) =
      headed (timescaleLine scale) (tidied body) := by
  have one : '\n' ∉ (timescaleLine scale).toList := by simp [timescaleLine, oneLine]
  have apart : (timescaleLine scale ++ "\n\n\n" ++ body).toList =
      (timescaleLine scale).toList ++ '\n' :: ([] ++ '\n' :: ([] ++ '\n' :: body.toList)) := by
    simp
  rw [← String.toList_inj, (isBlock_declared scale block).toList_tidied, apart,
    stripLineEnds_append_newline, stripLineEnds_append_newline, stripLineEnds_append_newline,
    stripLineEnds_of_not_mem one, ← block.toList_tidied]
  simp [headed, stripLineEnds_of_not_mem, dropWhileEnd]

/-- With a time scale a pass fails as it does without one, or gives the same text. Above it stands
the declaration, if any statement that delays is printed. -/
theorem generate_timescale (g : Graph) (roots : List NodeId) (config : Config) {scale : String}
    (oneLine : '\n' ∉ scale.toList) :
    generate g roots { config with timescale := some scale } =
      (generate g roots { config with timescale := none }).map fun text =>
        if (g.printed roots).any g.delays then headed ("`timescale " ++ scale) text else text := by
  let gen : Generator := ⟨g, .builtin, { config with timescale := none }⟩
  change (gen.timed scale).code roots = (gen.code roots).map _
  have passes := @Generator.code_timed gen scale rfl rfl roots
  rcases passes with ⟨e, plain, timed⟩ | ⟨body, shows, plain, timed⟩
  · rw [plain, timed]
    rfl
  · rw [plain, timed]
    refine congrArg Except.ok ?_
    dsimp only [gen]
    by_cases due : (g.printed roots).any g.delays = true
    · rw [if_pos due, if_pos due]
      exact tidied_declared oneLine (shows.isBlock_of_any due)
    · rw [if_neg due, if_neg due]

/-- A delay in the body of another one, a delay in an initial block, and a display apart. -/
def paced : Graph where
  nodes := #[
    { Node.blank "always_simu" .statement with statements := .ofList [("code", some 1)] },
    { Node.blank "time_block" .statement with statements := .ofList [("arg2", some 2)] },
    { Node.blank "display_block" .statement with fields := .ofList [("text", .text "on")] },
    { Node.blank "intial" .statement with statements := .ofList [("body", some 4)] },
    { Node.blank "time_block" .statement with comment := "late" },
    { Node.blank "display_block" .statement with fields := .ofList [("text", .text "off")] }]
  vars := []

theorem paced_timescale :
    '\n' ∉ "1ns / 1ps \t".toList ∧
      generate paced [0, 5, 3] { Config.standard with timescale := some "1ns / 1ps \t" } =
        .ok ("`timescale 1ns / 1ps\n\n\n" ++
          ("always #1 begin\n  #1\n    $display(\"on\");\nend\n\n" ++
            "$display(\"off\");\n\ninitial begin\n  // late\n  #1\nend\n")) ∧
      generate paced [5] { Config.standard with timescale := some "1ns / 1ps \t" } =
        .ok "$display(\"off\");\n" := by
  have oneLine : '\n' ∉ "1ns / 1ps \t".toList := by decide
  have untimed : generate paced [0, 5, 3] .standard =
      .ok ("always #1 begin\n  #1\n    $display(\"on\");\nend\n\n" ++
        "$display(\"off\");\n\ninitial begin\n  // late\n  #1\nend\n") := by cbv
  have untimedAlone : generate paced [5] .standard = .ok "$display(\"off\");\n" := by cbv
  have due : (paced.printed [0, 5, 3]).any paced.delays = true := by decide
  have notDue : (paced.printed [5]).any paced.delays = false := by decide
  have timed := generate_timescale paced [0, 5, 3] .standard oneLine
  have timedAlone := generate_timescale paced [5] .standard oneLine
  refine ⟨oneLine, timed.trans ?_, timedAlone.trans ?_⟩
  · change (generate paced [0, 5, 3] .standard).map _ = _
    rw [untimed, due]
    rfl
  · change (generate paced [5] .standard).map _ = _
    rw [untimedAlone, notDue]
    rfl

end BlockVerilog
