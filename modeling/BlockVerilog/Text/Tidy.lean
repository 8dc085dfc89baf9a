import BlockVerilog.Text.Blank
import BlockVerilog.Text.Lines

/-!
The last cleanup of a generated file: no blank lines around it and no blanks at line ends.
-/

namespace BlockVerilog.Text

/-- Drop the blank lines before the first line that is not, which keeps its indentation. -/
def dropLeadingLines (code : List Char) : List Char :=
  takeWhileEnd (· ≠ '\n') (code.takeWhile isBlank) ++ code.dropWhile isBlank

/-- White space at the end that spans a line break becomes one newline. -/
def collapseEnd (code : List Char) : List Char :=
  if '\n' ∈ takeWhileEnd isBlank code then dropWhileEnd isBlank code ++ ['\n'] else code

def isSpaceOrTab (c : Char) : Bool :=
  c = ' ' || c = '\t'

def stripLineEnds (code : List Char) : List Char :=
  unlines ((lines code).map (dropWhileEnd isSpaceOrTab))

def tidy (code : List Char) : List Char :=
  stripLineEnds (collapseEnd (dropLeadingLines code))

end BlockVerilog.Text
