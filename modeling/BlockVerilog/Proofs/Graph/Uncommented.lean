import BlockVerilog.Pass.Generator
import BlockVerilog.Proofs.Text.Layout

/-!
Graphs without their comments.

Nothing that is checked of a graph and no way through it depends on comments. What stands in front
of a statement for them is no code.
-/

namespace BlockVerilog

namespace Node

def uncommented (node : Node) : Node := { node with comment := "" }

variable (node : Node)

@[simp] theorem kind_uncommented : node.uncommented.kind = node.kind := rfl

@[simp] theorem shape_uncommented : node.uncommented.shape = node.shape := rfl

@[simp] theorem values_uncommented : node.uncommented.values = node.values := rfl

@[simp] theorem statements_uncommented : node.uncommented.statements = node.statements := rfl

end Node

namespace Graph

/-- The same graph, without a comment on any node. -/
def uncommented (g : Graph) : Graph := { g with nodes := g.nodes.map Node.uncommented }

variable (g : Graph)

@[simp] theorem get?_uncommented (id : NodeId) :
    g.uncommented.get? id = (g.get? id).map Node.uncommented := by
  simp [get?, uncommented]

@[simp] theorem size_uncommented : g.uncommented.size = g.size := by
  simp [size, uncommented]

@[simp] theorem ids_uncommented : g.uncommented.ids = g.ids := by
  rw [ids, size_uncommented, ids]

theorem toList_nodes_uncommented :
    g.uncommented.nodes.toList = g.nodes.toList.map Node.uncommented := by
  simp [uncommented]

@[simp] theorem keyOf_uncommented (id : NodeId) : g.uncommented.keyOf id = g.keyOf id := by
  rw [keyOf, keyOf, get?_uncommented, Option.map_map]
  rfl

@[simp] theorem successors_uncommented (id : NodeId) :
    g.uncommented.successors id = g.successors id := by
  rw [successors, successors, get?_uncommented, Option.map_map]
  rfl

@[simp] theorem targets_uncommented : g.uncommented.targets = g.targets := by
  rw [targets, toList_nodes_uncommented, List.flatMap_map]
  rfl

@[simp] theorem chainWithin_uncommented (steps : Nat) (id : NodeId) :
    g.uncommented.chainWithin steps id = g.chainWithin steps id := by
  induction steps generalizing id with
  | zero => rfl
  | succ steps inductionHypothesis =>
      have same : (g.uncommented.get? id).bind Node.next = (g.get? id).bind Node.next := by
        rw [get?_uncommented, Option.bind_map]
        rfl
      simp only [chainWithin, same, inductionHypothesis]

@[simp] theorem chain_uncommented (head : NodeId) : g.uncommented.chain head = g.chain head := by
  rw [chain, size_uncommented, chainWithin_uncommented, chain]

/-! ### Checks -/

theorem linked_uncommented (node : Node) (slot : String) (target : NodeId) :
    g.uncommented.linked node.uncommented slot target =
      (g.linked node slot target).map Node.uncommented := by
  rw [linked, linked, get?_uncommented]
  cases g.get? target <;> rfl

theorem checkValue_uncommented (node : Node) (slot : String) (held : Option NodeId) :
    g.uncommented.checkValue node.uncommented slot held = g.checkValue node slot held := by
  cases held with
  | none => rfl
  | some target =>
      simp only [checkValue, linked_uncommented]
      cases g.linked node slot target <;> rfl

theorem checkStatement_uncommented (node : Node) (slot : String) (held : Option NodeId) :
    g.uncommented.checkStatement node.uncommented slot held = g.checkStatement node slot held := by
  cases held with
  | none => rfl
  | some target =>
      simp only [checkStatement, linked_uncommented]
      cases g.linked node slot target <;> rfl

theorem checkNode_uncommented (node : Node) :
    g.uncommented.checkNode node.uncommented = g.checkNode node := by
  have values : (fun slot : String × Option NodeId =>
      g.uncommented.checkValue node.uncommented slot.1 slot.2) =
        fun slot => g.checkValue node slot.1 slot.2 :=
    funext fun slot => g.checkValue_uncommented node slot.1 slot.2
  have statements : (fun slot : String × Option NodeId =>
      g.uncommented.checkStatement node.uncommented slot.1 slot.2) =
        fun slot => g.checkStatement node slot.1 slot.2 :=
    funext fun slot => g.checkStatement_uncommented node slot.1 slot.2
  have next : g.uncommented.checkNext node.uncommented = g.checkNext node := by
    rw [checkNext, checkNext, checkStatement_uncommented]
    rfl
  rw [checkNode, checkNode, values, statements, next]
  rfl

theorem checkLinks_uncommented : g.uncommented.checkLinks = g.checkLinks := by
  rw [checkLinks, checkLinks, toList_nodes_uncommented]
  simp only [List.forM_eq_forM, List.forM_map]
  exact congrArg (forM g.nodes.toList) (funext g.checkNode_uncommented)

theorem explore_uncommented (unvisited : List NodeId) (path : List Frame) :
    g.uncommented.explore unvisited path = g.explore unvisited path := by
  have enter : ∀ id, g.uncommented.enter id = g.enter id := fun id => by
    rw [Graph.enter, successors_uncommented, Graph.enter]
  fun_induction explore g unvisited path with
  | case1 => rw [explore]
  | case2 unvisited node path inductionHypothesis => rw [explore, inductionHypothesis]
  | case3 unvisited node child pending path closing => rw [explore, if_pos closing]
  | case4 unvisited node child pending path open_ found inductionHypothesis =>
      rw [explore, if_neg open_, dif_pos found, enter, inductionHypothesis]
  | case5 unvisited node child pending path open_ done inductionHypothesis =>
      rw [explore, if_neg open_, dif_neg done, inductionHypothesis]

theorem exploreAll_uncommented (unvisited starts : List NodeId) :
    g.uncommented.exploreAll unvisited starts = g.exploreAll unvisited starts := by
  have enter : ∀ id, g.uncommented.enter id = g.enter id := fun id => by
    rw [Graph.enter, successors_uncommented, Graph.enter]
  induction starts generalizing unvisited with
  | nil => rfl
  | cons start starts inductionHypothesis =>
      simp only [exploreAll, enter, explore_uncommented, inductionHypothesis]

/-- Comments do not matter to whether a graph can be traversed, nor to what is wrong with it. -/
theorem validate_uncommented (roots : List NodeId) :
    g.uncommented.validate roots = g.validate roots := by
  have roots : g.uncommented.checkRoot = g.checkRoot := funext fun root => by
    simp only [checkRoot, contains, size_uncommented, targets_uncommented, keyOf_uncommented]
    rfl
  have acyclic : g.uncommented.checkAcyclic = g.checkAcyclic := by
    simp only [checkAcyclic, ids_uncommented, exploreAll_uncommented, keyOf_uncommented]
  rw [validate, validate, checkLinks_uncommented, roots, acyclic]

theorem checkFrom_uncommented (table : HandlerTable) (unseen work : List NodeId) :
    table.checkFrom g.uncommented unseen work = table.checkFrom g unseen work := by
  fun_induction HandlerTable.checkFrom table g unseen work with
  | case1 => rw [HandlerTable.checkFrom]
  | case2 unseen id work found absent inductionHypothesis =>
      rw [HandlerTable.checkFrom, dif_pos found, get?_uncommented, absent]
      exact inductionHypothesis
  | case3 unseen id work found node held fault faulty =>
      have same : (if node.uncommented.enabled then table.fault? node.uncommented else none) =
          some fault := faulty
      rw [HandlerTable.checkFrom, dif_pos found, get?_uncommented, held]
      simp only [Option.map_some, same]
  | case4 unseen id work found node held sound inductionHypothesis =>
      have same : (if node.uncommented.enabled then table.fault? node.uncommented else none) =
          none := sound
      rw [HandlerTable.checkFrom, dif_pos found, get?_uncommented, held]
      simp only [Option.map_some, same]
      exact inductionHypothesis
  | case5 unseen id work seen inductionHypothesis =>
      rw [HandlerTable.checkFrom, dif_neg seen]
      exact inductionHypothesis

theorem check_uncommented (table : HandlerTable) (roots : List NodeId) :
    table.check g.uncommented roots = table.check g roots := by
  rw [HandlerTable.check, ids_uncommented, checkFrom_uncommented, HandlerTable.check]

/-! ### Comments -/

theorem comment?_uncommented (id : NodeId) : g.uncommented.comment? id = none := by
  rw [comment?, get?_uncommented]
  cases g.get? id <;> rfl

/-- Without comments, nothing stands in front of a statement. -/
theorem commentsBefore_uncommented (width : Nat) (id : NodeId) :
    g.uncommented.commentsBefore width id = [] := by
  have none : ∀ id, g.uncommented.nestedComments id = [] := fun id => by
    have empty : ∀ ids : List NodeId, ids.filterMap g.uncommented.comment? = [] := fun ids => by
      simp [comment?_uncommented]
    rw [nestedComments, empty]
  rw [commentsBefore, comment?_uncommented]
  simp [none]

theorem endsLine_nestedComments (id : NodeId) : Text.EndsLine (g.nestedComments id) := by
  unfold nestedComments
  split
  next => exact Text.endsLine_nil
  next => exact Text.endsLine_newline _

/-- What stands in front of a statement for its comments is comment lines only. -/
theorem isRemark_commentsBefore (width : Nat) (id : NodeId) :
    Text.IsRemark (g.commentsBefore width id) := by
  unfold commentsBefore
  refine Text.IsRemark.append ?_ (Text.isRemark_flatMap fun child _ => ?_)
  · cases g.comment? id with
    | none => exact Text.isRemark_nil
    | some comment => exact Text.isRemark_commentBlock width comment.toList
  · exact Text.isRemark_prefixLines (g.endsLine_nestedComments child)

end Graph

end BlockVerilog
