import BlockVerilog.Graph.Defect
import BlockVerilog.Graph.Node

/-!
Why a pass gives no text.
-/

namespace BlockVerilog

inductive PassError where
  /-- The graph is not fit for generation. -/
  | defect (defect : Defect)
  /-- Nothing generates nodes of this kind. -/
  | unsupportedKind (node kind : String)
  /-- What generates the kind is for nodes of the other shape. -/
  | shapeMismatch (node kind : String) (registered found : Shape)
  /-- A choice field holds none of its choices. -/
  | invalidField (node field value : String)
  /-- A node outside the graph was asked for. -/
  | absentNode (id : NodeId)
  /-- The graph goes on after as many nodes as it has. -/
  | endless
  deriving DecidableEq, Repr

namespace PassError

def message : PassError → String
  | defect d => d.message
  | unsupportedKind node kind => "node '" ++ node ++ "' has unsupported kind '" ++ kind ++ "'"
  | shapeMismatch node kind registered found =>
      "node '" ++ node ++ "': kind '" ++ kind ++ "' is registered as " ++ registered.text ++
        " but the node is " ++ found.text
  | invalidField node field value =>
      "node '" ++ node ++ "': field '" ++ field ++ "' has unknown value '" ++ value ++ "'"
  | absentNode id => "node " ++ id.text ++ " does not exist"
  | endless => "the graph does not end"

end PassError

end BlockVerilog
