import BlockVerilog.Document.Format
import BlockVerilog.Handlers.Builtin

/-!
The two uses of a document text: generating its code, and checking it.
-/

namespace BlockVerilog.Command

/-- The program of a document text. -/
def load (text : String) : Except PassError Program :=
  match Program.parse text with
  | .error defect => .error (.defect defect)
  | .ok program => .ok program

/-- The code of a document. -/
def generateSource (text : String) (config : Config) : Except PassError String :=
  match load text with
  | .error e => .error e
  | .ok program => generate program.graph program.roots config

/-- What a document holds. -/
def summary (program : Program) : String :=
  toString program.graph.size ++ " nodes, " ++ toString program.roots.length ++ " roots"

/-- A summary of a document that could be generated, or what is in the way. -/
def checkSource (text : String) : Except PassError String :=
  match load text with
  | .error e => .error e
  | .ok program =>
      match (Generator.mk program.graph .builtin .standard).precheck program.roots with
      | .error e => .error e
      | .ok () => .ok (summary program)

end BlockVerilog.Command
