import BlockVerilog.Json.Fault

/-!
What makes a document unreadable or a graph unfit for generation.
-/

namespace BlockVerilog

/-- A structural error. Nodes are named by their keys. -/
inductive Defect where
  /-- A slot refers to a node that does not exist. -/
  | danglingReference (node slot target : String)
  /-- A node is reachable from itself. -/
  | cycle (node : String)
  /-- A value slot holds a statement node. -/
  | valueNotExpression (node slot target : String)
  /-- A statement slot, or `next`, holds an expression node. -/
  | statementIsExpression (node slot target : String)
  | expressionHasNext (node : String)
  /-- A root is also linked to. -/
  | rootReferenced (node : String)
  | unknownRoot (index : Nat)
  | duplicateId (node : String)
  /-- The text is no document. -/
  | unreadable (error : Json.ReadError)
  deriving DecidableEq, Repr

namespace Defect

def message : Defect → String
  | danglingReference node slot target =>
      "node '" ++ node ++ "': slot '" ++ slot ++ "' refers to a node that does not exist (" ++
        target ++ ")"
  | cycle node => "node '" ++ node ++ "' is reachable from itself"
  | valueNotExpression node slot target =>
      "node '" ++ node ++ "': value slot '" ++ slot ++ "' is connected to statement node '" ++
        target ++ "'"
  | statementIsExpression node slot target =>
      "node '" ++ node ++ "': '" ++ slot ++ "' chains to expression node '" ++ target ++ "'"
  | expressionHasNext node => "expression node '" ++ node ++ "' has a next statement"
  | rootReferenced node => "root node '" ++ node ++ "' is also connected as an input"
  | unknownRoot index => "root #" ++ toString index ++ " does not exist"
  | duplicateId node => "node id '" ++ node ++ "' is used more than once"
  | unreadable error => "invalid graph document: " ++ error.message

end Defect

end BlockVerilog
