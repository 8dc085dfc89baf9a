import BlockVerilog.Handlers.Conditional
import BlockVerilog.Proofs.Graph.Running

/-!
The statements that a pass prints.

They can be told from the graph alone: the enabled statements of the chains that the roots head, and
of the chains in those statement slots that the kinds of printed statements have. What hangs in
another slot is reached, but never printed.
-/

namespace BlockVerilog

/-- The statement slots that nodes of a kind print, in order. -/
def Node.bodySlots (node : Node) : List String :=
  match node.kind with
  | "always_blk" | "intial" | "intial_par" => ["body"]
  | "always_simu" => ["code"]
  | "time_block" => ["arg2"]
  | "if_else_block" => ["if_code", "else_code"]
  | "controls_if" | "controls_ifelse" =>
      (List.range (Handlers.branchCount node)).map Handlers.bodySlot ++
        if node.statements.contains "ELSE" then ["ELSE"] else []
  | _ => []

/-- A statement that is printed, and how many bodies it stands in. -/
structure Printed where
  id : NodeId
  depth : Nat
  deriving DecidableEq, Repr

/-- The same statement in one more body. -/
def Printed.inBody (entry : Printed) : Printed := ⟨entry.id, entry.depth + 1⟩

namespace Graph

/-- The first statement of each body of a node. -/
def bodies (g : Graph) (id : NodeId) : List NodeId :=
  ((g.get? id).map fun node =>
    node.bodySlots.flatMap fun slot => (node.statements.target? slot).toList).getD []

/-- A statement and what is printed in its bodies, given what is printed from a statement on. -/
def printedAt (g : Graph) (below : NodeId → List Printed) (id : NodeId) : List Printed :=
  ⟨id, 0⟩ :: (g.bodies id).flatMap fun body => (below body).map Printed.inBody

/-- What is printed from a statement on, in order, through at most so many levels of bodies. -/
def printedFrom (g : Graph) : (levels : Nat) → NodeId → List Printed
  | 0, _ => []
  | levels + 1, head => (g.running (some head)).flatMap (g.printedAt (g.printedFrom levels))

/-- Whether there is a statement node with an id. -/
def isStatement (g : Graph) (id : NodeId) : Bool :=
  (g.get? id).any fun node => node.shape = .statement

/-- The statements that a pass over roots prints, in order. -/
def printed (g : Graph) (roots : List NodeId) : List Printed :=
  (roots.filter g.isStatement).flatMap (g.printedFrom g.size)

end Graph

end BlockVerilog
