import BlockVerilog.Proofs.Graph.WellFormed
import BlockVerilog.Proofs.Reading.Form

/-!
Graphs of expressions grow into trees.

The value links from a node on must lie on no cycle, and lead to nodes of known form only. A tree is
grown along as many links as the node leads to nodes.
-/

namespace BlockVerilog.Reading

open Relation BlockVerilog.Graph

/-- Whatever hangs in a node is inside the graph, not in itself, and of a known form unless it is
disabled. -/
structure IsExpression (g : Graph) (id : NodeId) : Prop where
  inside : ∀ target, ReflTransGen g.LinksValue id target → target < g.size
  acyclic : ∀ target, ReflTransGen g.LinksValue id target →
    ¬ TransGen g.LinksValue target target
  known : ∀ target node, ReflTransGen g.LinksValue id target → g.get? target = some node →
    node.enabled = true → ∃ form, form? node = some form

/-- The tree of a node, grown along at most so many links. -/
def treeWithin (g : Graph) (names : String → Word) : Nat → NodeId → Option Tree
  | 0, _ => none
  | depth + 1, id =>
      match g.get? id with
      | none => none
      | some node =>
          if node.enabled then
            (form? node).map fun form =>
              form.tree names fun slot =>
                (node.values.target? slot).bind (treeWithin g names depth)
          else none

variable {g : Graph} {id : NodeId} {node : Node}

theorem treeWithin_succ (names : String → Word) (depth : Nat) (found : g.get? id = some node) :
    treeWithin g names (depth + 1) id =
      if node.enabled then
        (form? node).map fun form =>
          form.tree names fun slot => (node.values.target? slot).bind (treeWithin g names depth)
      else none := by
  rw [treeWithin, found]

namespace IsExpression

theorem of_known {roots : List NodeId} (formed : g.WellFormed roots) (within : id < g.size)
    (known : ∀ target node, ReflTransGen g.LinksValue id target → g.get? target = some node →
      node.enabled = true → ∃ form, form? node = some form) : IsExpression g id := by
  constructor
  case inside =>
    intro target path
    cases path with
    | refl => exact within
    | tail _ link => exact formed.closed _ target link.links
  case acyclic =>
    intro target _ cycle
    exact formed.acyclic target (TransGen.mono (fun _ _ => LinksValue.links) _ _ cycle)
  case known => exact known

/-- Every node of a well-formed graph is one, if all enabled nodes are of a known form. -/
theorem of_wellFormed {roots : List NodeId} (formed : g.WellFormed roots)
    (known : ∀ node ∈ g.nodes.toList, node.enabled = true → (form? node).isSome = true)
    (within : id < g.size) : IsExpression g id := by
  apply of_known formed within
  intro target node _ found on
  exact Option.isSome_iff_exists.mp (known node (mem_nodes_iff.mpr ⟨target, found⟩) on)

/-- It is enough if the expression nodes are, since value slots hold nothing else. -/
theorem of_shape {roots : List NodeId} (formed : g.WellFormed roots)
    (known : ∀ node ∈ g.nodes.toList, node.shape = .expression → node.enabled = true →
      (form? node).isSome = true)
    (found : g.get? id = some node) (shape : node.shape = .expression) : IsExpression g id := by
  apply of_known formed (lt_size_of_get?_eq_some found)
  intro target other path foundOther on
  have isValue : other.shape = .expression := by
    cases path with
    | refl =>
        obtain rfl := Option.some.inj (found.symm.trans foundOther)
        exact shape
    | tail _ link =>
        obtain ⟨held, foundHeld, holds⟩ := formed.values _ target link
        obtain rfl := Option.some.inj (foundOther.symm.trans foundHeld)
        exact holds
  have listed := mem_nodes_iff.mpr ⟨target, foundOther⟩
  exact Option.isSome_iff_exists.mp (known other listed isValue on)

theorem lt_size (isExpression : IsExpression g id) : id < g.size := isExpression.inside id .refl

theorem child (isExpression : IsExpression g id) {target : NodeId}
    (link : g.LinksValue id target) : IsExpression g target where
  inside other path := isExpression.inside other (path.head link)
  acyclic other path := isExpression.acyclic other (path.head link)
  known other node path := isExpression.known other node (path.head link)

theorem extent_lt (isExpression : IsExpression g id) {target : NodeId}
    (link : g.LinksValue id target) :
    extent g.LinksValue g.size target < extent g.LinksValue g.size id :=
  extent_lt_of_link link isExpression.lt_size (isExpression.acyclic id .refl)

theorem links_of_target? (found : g.get? id = some node) {slot : String} {target : NodeId}
    (holds : node.values.target? slot = some target) : g.LinksValue id target :=
  ⟨node, found, Slots.mem_targets_of_target? holds⟩

/-- A tree that is grown far enough is the tree of its node. -/
theorem grows (isExpression : IsExpression g id) {depth : Nat}
    (enough : extent g.LinksValue g.size id ≤ depth) (names : String → Word) :
    Grows g names id (treeWithin g names depth id) := by
  induction depth generalizing id with
  | zero =>
      have positive : 0 < extent g.LinksValue g.size id := extent_pos isExpression.lt_size
      omega
  | succ depth inductionHypothesis =>
      have found := get?_eq_some isExpression.lt_size
      rw [treeWithin_succ names depth found]
      split
      next on =>
        obtain ⟨form, known⟩ := isExpression.known id _ .refl found on
        rw [known]
        refine .enabled _ found on known (fun slot nothing => ?_) fun slot target holds => ?_
        · rw [nothing]
          rfl
        · have link := links_of_target? found holds
          have shrinks := isExpression.extent_lt link
          rw [holds]
          exact inductionHypothesis (isExpression.child link) (by omega)
      next off => exact .disabled found (Bool.eq_false_iff.mpr off)

theorem grows_some (isExpression : IsExpression g id) (found : g.get? id = some node)
    (on : node.enabled = true) {depth : Nat} (enough : extent g.LinksValue g.size id ≤ depth)
    (names : String → Word) :
    ∃ tree, treeWithin g names depth id = some tree ∧ Grows g names id (some tree) := by
  have grows := isExpression.grows enough names
  cases grown : treeWithin g names depth id with
  | some tree => exact ⟨tree, rfl, grown ▸ grows⟩
  | none =>
      rw [grown] at grows
      cases grows with
      | disabled foundAgain off =>
          obtain rfl := Option.some.inj (found.symm.trans foundAgain)
          rw [off] at on
          cases on

end IsExpression

end BlockVerilog.Reading
