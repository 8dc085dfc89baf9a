import BlockVerilog.Graph.Basic
import BlockVerilog.Text.Comment

/-!
The comments in front of a statement: its own, and those of the expressions plugged into it.

`valueTree` is the recursive walk over value links that keeps a node before what hangs in it;
`harvest` does the same walk with an explicit stack.
-/

namespace BlockVerilog.Graph

/-- What hangs in the value slots of a node; nothing for an id outside the graph. -/
def valueTargets (g : Graph) (id : NodeId) : List NodeId :=
  ((g.get? id).map fun node => node.values.targets).getD []

/-- The comment of a node, if it has one. -/
def comment? (g : Graph) (id : NodeId) : Option String :=
  ((g.get? id).map Node.comment).filter (· ≠ "")

/-- A node and what hangs below it along at most `depth` value links: every node before what hangs
in it, in slot order, a shared one once for every path to it. -/
def valueTree (g : Graph) : (depth : Nat) → NodeId → List NodeId
  | 0, id => [id]
  | depth + 1, id => id :: (g.valueTargets id).flatMap (g.valueTree depth)

/-- Take nodes off a stack and put what hangs in them on it; each entry says along how many more
value links it is followed. -/
def harvest (g : Graph) : List (Nat × NodeId) → List NodeId
  | [] => []
  | (0, id) :: stack => id :: harvest g stack
  | (depth + 1, id) :: stack =>
      id :: harvest g ((g.valueTargets id).map (depth, ·) ++ stack)
termination_by stack => (stack.flatMap fun entry => g.valueTree entry.1 entry.2).length
decreasing_by
  · simp [valueTree]
  · simp [valueTree, List.flatMap_map]

theorem harvest_eq_flatMap (g : Graph) (stack : List (Nat × NodeId)) :
    g.harvest stack = stack.flatMap fun entry => g.valueTree entry.1 entry.2 := by
  fun_induction harvest g stack with
  | case1 => rfl
  | case2 id stack inductionHypothesis => simp [valueTree, inductionHypothesis]
  | case3 depth id stack inductionHypothesis =>
      simp [valueTree, inductionHypothesis, List.flatMap_map]

/-- The comments below a node, one after the other, with a newline behind each. -/
def nestedComments (g : Graph) (id : NodeId) : List Char :=
  match (g.harvest [(g.size, id)]).filterMap g.comment? with
  | [] => []
  | comments => Text.unlines (comments.map String.toList) ++ ['\n']

/-- The comment lines in front of a node: its own comment, wrapped, then the comments of each
expression plugged into it. -/
def commentsBefore (g : Graph) (width : Nat) (id : NodeId) : List Char :=
  ((g.comment? id).map fun comment => Text.commentBlock width comment.toList).getD [] ++
    (g.valueTargets id).flatMap fun child =>
      Text.prefixLines Text.commentMark (g.nestedComments child)

end BlockVerilog.Graph
