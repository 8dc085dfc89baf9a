import BlockVerilog.Graph.Basic
import BlockVerilog.Graph.Defect

/-!
The structural check that precedes generation.

Links are checked node by node, then the roots, and last that no node reaches itself. The first
defect in this order is reported.
-/

namespace BlockVerilog.Graph

/-- The node a link leads to, or the defect of a link that leaves the graph. -/
def linked (g : Graph) (node : Node) (slot : String) (target : NodeId) : Except Defect Node :=
  match g.get? target with
  | some child => .ok child
  | none => .error (.danglingReference node.key slot (numberText target))

/-- A value slot holds an expression node, if it holds one. -/
def checkValue (g : Graph) (node : Node) (slot : String) : Option NodeId → Except Defect Unit
  | none => .ok ()
  | some target => do
      let child ← g.linked node slot target
      if child.shape = .statement then
        throw (.valueNotExpression node.key slot child.key)

/-- A statement slot holds a statement node, if it holds one; so does `next`. -/
def checkStatement (g : Graph) (node : Node) (slot : String) : Option NodeId → Except Defect Unit
  | none => .ok ()
  | some target => do
      let child ← g.linked node slot target
      if child.shape = .expression then
        throw (.statementIsExpression node.key slot child.key)

/-- Only statements go on with `next`. -/
def checkNext (g : Graph) (node : Node) : Except Defect Unit := do
  if node.next.isSome && node.shape = .expression then
    throw (.expressionHasNext node.key)
  g.checkStatement node "next" node.next

def checkNode (g : Graph) (node : Node) : Except Defect Unit := do
  node.values.entries.forM fun slot => g.checkValue node slot.1 slot.2
  node.statements.entries.forM fun slot => g.checkStatement node slot.1 slot.2
  g.checkNext node

def checkLinks (g : Graph) : Except Defect Unit :=
  g.nodes.toList.forM g.checkNode

/-- A root is a node that nothing links to. -/
def checkRoot (g : Graph) (root : NodeId) : Except Defect Unit := do
  if ¬ g.contains root then throw (.unknownRoot root)
  if root ∈ g.targets then throw (.rootReferenced (g.keyOf root))

/-- The nodes a node links to; none for an id outside the graph. -/
def successors (g : Graph) (id : NodeId) : List NodeId :=
  ((g.get? id).map Node.successors).getD []

/-- A node on the path of a search, with those of its successors that are not explored yet. -/
structure Frame where
  node : NodeId
  pending : List NodeId

/-- The frame of a node that is entered; its last link is explored first. -/
def enter (g : Graph) (id : NodeId) : Frame := ⟨id, (g.successors id).reverse⟩

/-- How much is left to do on a path. -/
def pathWork : List Frame → Nat
  | [] => 0
  | frame :: path => frame.pending.length + 1 + pathWork path

/-- Depth-first search along a path, the innermost frame first. A successor on the path closes a
cycle, one that is `unvisited` extends the path, any other is done with. The result is the nodes
that stay unvisited, or the node that closes a cycle. -/
def explore (g : Graph) (unvisited : List NodeId) : List Frame → Except NodeId (List NodeId)
  | [] => .ok unvisited
  | ⟨_, []⟩ :: path => explore g unvisited path
  | ⟨node, child :: pending⟩ :: path =>
      if child = node ∨ child ∈ path.map Frame.node then .error child
      else if _found : child ∈ unvisited then
        explore g (unvisited.erase child) (g.enter child :: ⟨node, pending⟩ :: path)
      else explore g unvisited (⟨node, pending⟩ :: path)
termination_by path => (unvisited.length, pathWork path)
decreasing_by
  · exact Prod.Lex.right _ (by simp [pathWork])
  · exact Prod.Lex.left _ _ (length_erase_lt _found)
  · exact Prod.Lex.right _ (by simp [pathWork])

/-- Start a search at each of these nodes that no search has visited. -/
def exploreAll (g : Graph) : (unvisited starts : List NodeId) → Except NodeId Unit
  | _, [] => .ok ()
  | unvisited, start :: starts =>
      if start ∈ unvisited then
        match g.explore (unvisited.erase start) [g.enter start] with
        | .error closing => .error closing
        | .ok unvisited => exploreAll g unvisited starts
      else exploreAll g unvisited starts

/-- No node reaches itself along value, statement and `next` links. -/
def checkAcyclic (g : Graph) : Except Defect Unit :=
  match g.exploreAll g.ids g.ids with
  | .error closing => .error (.cycle (g.keyOf closing))
  | .ok () => .ok ()

/-- Whether a graph can be traversed from these roots. -/
def validate (g : Graph) (roots : List NodeId) : Except Defect Unit := do
  g.checkLinks
  roots.forM g.checkRoot
  g.checkAcyclic

end BlockVerilog.Graph
