import BlockVerilog.Graph.Field
import BlockVerilog.Graph.Slots

/-!
The nodes of a block graph.

An expression node has a value and hangs in a value slot of another node; a statement node heads a
statement slot or follows another statement along `next`.
-/

namespace BlockVerilog

/-- Whether a node, or what generates it, gives a value or lines of code. -/
inductive Shape where
  | expression
  | statement
  deriving DecidableEq, Repr

namespace Shape

def text : Shape → String
  | expression => "expression"
  | statement => "statement"

/-- The shape of a node by whether it has an output. -/
def ofOutput : Bool → Shape
  | true => expression
  | false => statement

end Shape

/-- One block of a program. -/
structure Node where
  /-- The id the editor gave it; messages name the node by it. -/
  key : String
  /-- What selects its generator. -/
  kind : String
  shape : Shape
  fields : Fields
  values : Slots
  statements : Slots
  /-- The statement that follows. -/
  next : Option NodeId
  /-- The comment attached to it, empty where there is none. -/
  comment : String
  /-- A disabled node generates nothing. -/
  enabled : Bool

namespace Node

/-- An enabled node with nothing attached. -/
def blank (kind : String) (shape : Shape) : Node where
  key := ""
  kind := kind
  shape := shape
  fields := ∅
  values := ∅
  statements := ∅
  next := none
  comment := ""
  enabled := true

/-- The text of a field, empty where there is none. -/
def field (node : Node) (name : String) : String := node.fields.textOf name

/-- The nodes it links to: value slots, statement slots, then `next`. -/
def successors (node : Node) : List NodeId :=
  node.values.targets ++ node.statements.targets ++ node.next.toList

end Node

end BlockVerilog
