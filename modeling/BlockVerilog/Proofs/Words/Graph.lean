import Mathlib.Data.List.Nodup
import Mathlib.Data.List.Perm.Subperm
import BlockVerilog.Graph.Basic
import BlockVerilog.Proofs.Words.Tree

/-!
The trees of word operators in a graph.

A tree is finite, whatever else the graph holds. The nodes on a way down in it are distinct, so that
it is no higher than the graph has nodes.
-/

namespace BlockVerilog.Words

open BlockVerilog.Graph

/-- What a node is of an expression of word operators. -/
inductive Form where
  | leaf (atom : Leaf)
  | negation (sign : Reading.Sign)
  | binary (connective : Connective)
  deriving DecidableEq, Repr

def connective? : String → Option Connective
  | "AND" => some .and
  | "OR" => some .or
  | _ => none

def form? (node : Node) : Option Form :=
  match node.kind with
  | "zero" => some (.leaf .zero)
  | "one" => some (.leaf .one)
  | "variables_get" => some (.leaf (.variable (node.field "VAR")))
  | "logic_negate" => some (.negation .logical)
  | "logic_negate3" => some (.negation .bitwise)
  | "logic_operation_2" => (connective? (node.field "OP")).map .binary
  | _ => none

/-- An enabled node stands for a tree, with all of its operands connected. -/
inductive Stands (g : Graph) : NodeId → Tree → Prop
  | leaf {id : NodeId} {node : Node} {atom : Leaf} (found : g.get? id = some node)
      (on : node.enabled = true) (known : form? node = some (.leaf atom)) : Stands g id (.leaf atom)
  | negation {id child : NodeId} {node : Node} {sign : Reading.Sign} {operand : Tree}
      (found : g.get? id = some node) (on : node.enabled = true)
      (known : form? node = some (.negation sign))
      (held : node.values.target? "BOOL" = some child) (stands : Stands g child operand) :
      Stands g id (.negation sign operand)
  | binary {id first second : NodeId} {node : Node} {connective : Connective} {left right : Tree}
      (found : g.get? id = some node) (on : node.enabled = true)
      (known : form? node = some (.binary connective))
      (firstHeld : node.values.target? "A" = some first)
      (secondHeld : node.values.target? "B" = some second)
      (firstStands : Stands g first left) (secondStands : Stands g second right) :
      Stands g id (.binary connective left right)

namespace Stands

variable {g : Graph}

theorem lt_size {id : NodeId} {tree : Tree} (stands : Stands g id tree) : id < g.size := by
  cases stands with
  | leaf found | negation found | binary found => exact lt_size_of_get?_eq_some found

theorem unique {id : NodeId} {tree other : Tree} (stands : Stands g id tree)
    (again : Stands g id other) : tree = other := by
  induction stands generalizing other with
  | leaf found on known =>
      cases again with
      | leaf foundAgain _ knownAgain
      | negation foundAgain _ knownAgain
      | binary foundAgain _ knownAgain =>
          obtain rfl := Option.some.inj (found.symm.trans foundAgain)
          cases Option.some.inj (known.symm.trans knownAgain)
          try rfl
  | negation found on known held stands inductionHypothesis =>
      cases again with
      | leaf foundAgain _ knownAgain
      | binary foundAgain _ knownAgain =>
          obtain rfl := Option.some.inj (found.symm.trans foundAgain)
          cases Option.some.inj (known.symm.trans knownAgain)
      | negation foundAgain _ knownAgain heldAgain standsAgain =>
          obtain rfl := Option.some.inj (found.symm.trans foundAgain)
          cases Option.some.inj (known.symm.trans knownAgain)
          obtain rfl := Option.some.inj (held.symm.trans heldAgain)
          rw [inductionHypothesis standsAgain]
  | binary found on known firstHeld secondHeld _ _ firstSame secondSame =>
      cases again with
      | leaf foundAgain _ knownAgain
      | negation foundAgain _ knownAgain =>
          obtain rfl := Option.some.inj (found.symm.trans foundAgain)
          cases Option.some.inj (known.symm.trans knownAgain)
      | binary foundAgain _ knownAgain firstAgain secondAgain firstStands secondStands =>
          obtain rfl := Option.some.inj (found.symm.trans foundAgain)
          cases Option.some.inj (known.symm.trans knownAgain)
          obtain rfl := Option.some.inj (firstHeld.symm.trans firstAgain)
          obtain rfl := Option.some.inj (secondHeld.symm.trans secondAgain)
          rw [firstSame firstStands, secondSame secondStands]

/-- The nodes on a longest way down from a node that stands for a tree. -/
structure WayDown (g : Graph) (tree : Tree) (way : List NodeId) : Prop where
  length : way.length = tree.height
  nodup : way.Nodup
  lower : ∀ id ∈ way, ∃ below, Stands g id below ∧ below.height ≤ tree.height

theorem WayDown.extend {id : NodeId} {tree operand : Tree} {way : List NodeId}
    (down : WayDown g operand way) (stands : Stands g id tree)
    (higher : tree.height = operand.height + 1) : WayDown g tree (id :: way) where
  length := by rw [List.length_cons, down.length, higher]
  nodup := by
    -- a node stands for one tree, and those on the way are lower
    refine List.nodup_cons.mpr ⟨fun listed => ?_, down.nodup⟩
    obtain ⟨below, standsBelow, low⟩ := down.lower id listed
    rw [standsBelow.unique stands] at low
    omega
  lower := by
    refine List.forall_mem_cons.mpr ⟨⟨tree, stands, Nat.le_refl _⟩, fun other listed => ?_⟩
    obtain ⟨below, standsBelow, low⟩ := down.lower other listed
    exact ⟨below, standsBelow, by omega⟩

theorem exists_wayDown {id : NodeId} {tree : Tree} (stands : Stands g id tree) :
    ∃ way, WayDown g tree way := by
  induction stands with
  | @leaf id _ atom found on known =>
      have stands := Stands.leaf found on known
      refine ⟨[id], rfl, List.nodup_singleton id, fun other listed => ?_⟩
      exact ⟨.leaf atom, List.mem_singleton.mp listed ▸ stands, Nat.le_refl _⟩
  | negation found on known held stands inductionHypothesis =>
      obtain ⟨way, down⟩ := inductionHypothesis
      exact ⟨_, down.extend (.negation found on known held stands) rfl⟩
  | @binary _ _ _ _ _ left right found on known firstHeld secondHeld first second firstDown
      secondDown =>
      have stands := Stands.binary found on known firstHeld secondHeld first second
      obtain ⟨firstWay, firstDown⟩ := firstDown
      obtain ⟨secondWay, secondDown⟩ := secondDown
      rcases Nat.le_total left.height right.height with higher | higher
      · exact ⟨_, secondDown.extend stands (by rw [Tree.height, Nat.max_eq_right higher])⟩
      · exact ⟨_, firstDown.extend stands (by rw [Tree.height, Nat.max_eq_left higher])⟩

theorem height_le_size {id : NodeId} {tree : Tree} (stands : Stands g id tree) :
    tree.height ≤ g.size := by
  obtain ⟨way, down⟩ := stands.exists_wayDown
  have inside : way ⊆ g.ids := fun other listed => by
    obtain ⟨_, standsBelow, _⟩ := down.lower other listed
    exact mem_ids.mpr standsBelow.lt_size
  have bounded := (List.subperm_of_subset down.nodup inside).length_le
  rwa [down.length, ids, List.length_range] at bounded

end Stands

end BlockVerilog.Words
