import BlockVerilog.Proofs.Graph.Rewired
import BlockVerilog.Proofs.Handlers.Preorder
import BlockVerilog.Proofs.Pass.Relabel
import BlockVerilog.Proofs.Related

/-!
Nodes of two graphs that are generated alike.

Paired nodes have the same data, and paired nodes run in their slots. Nothing is asked of disabled
nodes, so that two such graphs may link past different ones of them. What a table holds against
paired nodes, and against all that runs below them, is the same up to the names of the nodes.
-/

namespace BlockVerilog

open Relation

/-- Two nodes, each in its graph, that a pass cannot tell apart but for their keys. -/
structure Node.Resembles (label : String → String) (g h : Graph) (pair : NodeId → NodeId → Prop)
    (m n : Node) : Prop where
  enabled : m.enabled = true ∧ n.enabled = true
  kind : n.kind = m.kind
  shape : n.shape = m.shape
  fields : n.fields = m.fields
  key : label m.key = label n.key
  valueKeys : n.values.keys = m.values.keys
  statementKeys : n.statements.keys = m.statements.keys
  values : ∀ slot,
    List.Forall₂ pair (g.running (m.values.target? slot)) (h.running (n.values.target? slot))
  statements : ∀ slot, List.Forall₂ pair (g.running (m.statements.target? slot))
    (h.running (n.statements.target? slot))

/-- A pairing of nodes that a pass cannot tell apart, with comments laid out at a width. -/
structure Graph.Pairing (label : String → String) (g h : Graph) (width : Nat)
    (pair : NodeId → NodeId → Prop) : Prop where
  vars : h.vars = g.vars
  nodes : ∀ a b, pair a b → ∃ m n, g.get? a = some m ∧ h.get? b = some n ∧
    m.Resembles label g h pair n
  comments : ∀ a b, pair a b → g.commentsBefore width a = h.commentsBefore width b

/-- Two roots of the same shape in which paired nodes run. -/
structure Graph.RootPair (g h : Graph) (pair : NodeId → NodeId → Prop) (root other : NodeId) :
    Prop where
  nodes : ∃ m n, g.get? root = some m ∧ h.get? other = some n ∧ n.shape = m.shape
  runs : List.Forall₂ pair (g.running (some root)) (h.running (some other))

namespace Graph

variable {g h : Graph}

theorem links_of_value {id child : NodeId} {node : Node} {slot : String}
    (found : g.get? id = some node) (holds : node.values.target? slot = some child) :
    g.Links id child :=
  LinksValue.links ⟨node, found, Slots.mem_targets_of_target? holds⟩

theorem links_of_statement {id head : NodeId} {node : Node} {slot : String}
    (found : g.get? id = some node) (holds : node.statements.target? slot = some head) :
    g.Links id head :=
  LinksStatement.links ⟨node, found, Slots.mem_targets_of_target? holds⟩

/-- What runs in a slot is followed as far as what hangs there. -/
theorem Suffices.of_running (closed : g.Closed) {depth : Nat} {held : Option NodeId} {id : NodeId}
    (enough : ∀ head ∈ held, g.Suffices (depth, head)) (runs : id ∈ g.running held) :
    g.Suffices (depth, id) := by
  obtain ⟨_, head, rfl, path⟩ := mem_running runs
  exact (enough head rfl).of_reaches closed (reaches_of_follows path)

end Graph

namespace HandlerTable

open BlockVerilog.Graph

variable {table : HandlerTable} {label : String → String} {g h : Graph} {width : Nat}
  {pair : NodeId → NodeId → Prop}

theorem fault?_resembles (table : HandlerTable) {m n : Node} (same : m.Resembles label g h pair n) :
    (table.fault? m).map (PassError.relabel label) =
      (table.fault? n).map (PassError.relabel label) := by
  unfold fault?
  rw [same.kind, same.shape]
  cases table.get? m.kind with
  | none => exact congrArg (fun key => some (PassError.unsupportedKind key m.kind)) same.key
  | some handler =>
      dsimp only
      split
      next => rfl
      next =>
        exact congrArg (fun key => some (PassError.shapeMismatch key m.kind handler.shape m.shape))
          same.key

theorem faultsInside_eq (closed : g.Closed) (acyclic : g.Acyclic) {id : NodeId} {node : Node}
    (found : g.get? id = some node) :
    table.faultsInside g id = (table.fault? node).toList ++
      (node.values.keys.flatMap fun slot =>
        (g.running (node.values.target? slot)).flatMap (table.faultsInside g)) ++
      node.statements.keys.flatMap fun slot =>
        (g.running (node.statements.target? slot)).flatMap (table.faultsInside g) := by
  have values : ∀ slot, (node.values.target? slot).toList.flatMap (table.faults g) =
      (g.running (node.values.target? slot)).flatMap (table.faultsInside g) := fun slot =>
    table.faults_running closed acyclic fun child holds => closed _ _ (links_of_value found holds)
  have statements : ∀ slot, (node.statements.target? slot).toList.flatMap (table.faults g) =
      (g.running (node.statements.target? slot)).flatMap (table.faultsInside g) := fun slot =>
    table.faults_running closed acyclic fun head holds =>
      closed _ _ (links_of_statement found holds)
  rw [faultsInside, found]
  simp only [Slots.targets_eq_flatMap, List.flatMap_assoc, values, statements]

section

variable (closed : g.Closed) (acyclic : g.Acyclic) (otherClosed : h.Closed)
  (otherAcyclic : h.Acyclic)
include closed acyclic otherClosed otherAcyclic

theorem faultsInside_paired (pairing : Pairing label g h width pair) {depth : Nat} {a b : NodeId}
    (enough : g.Suffices (depth, a)) (paired : pair a b) :
    (table.faultsInside g a).map (PassError.relabel label) =
      (table.faultsInside h b).map (PassError.relabel label) := by
  induction depth generalizing a b with
  | zero => exact absurd enough.pos (Nat.lt_irrefl 0)
  | succ depth inductionHypothesis =>
      obtain ⟨m, n, found, otherFound, same⟩ := pairing.nodes a b paired
      have own := congrArg Option.toList (table.fault?_resembles same)
      rw [Option.toList_map, Option.toList_map] at own
      have values := fun slot => flatMap_eq_of_forall₂ (same.values slot) fun id runs other =>
        inductionHypothesis (Suffices.of_running closed
          (fun _ holds => enough.of_links closed acyclic (links_of_value found holds)) runs)
      have statements := fun slot => flatMap_eq_of_forall₂ (same.statements slot)
        fun id runs other => inductionHypothesis (Suffices.of_running closed
          (fun _ holds => enough.of_links closed acyclic (links_of_statement found holds)) runs)
      rw [faultsInside_eq closed acyclic found, faultsInside_eq otherClosed otherAcyclic otherFound,
        same.valueKeys, same.statementKeys]
      simp only [List.map_append, List.map_flatMap, own, values, statements]

end

/-- A table refuses roots in which paired nodes run for the same reason, or none of them. -/
theorem check_paired (table : HandlerTable) (pairing : Pairing label g h width pair)
    {roots others : List NodeId} (formed : g.WellFormed roots) (otherFormed : h.WellFormed others)
    (begun : List.Forall₂ (RootPair g h pair) roots others) :
    (table.check g roots).mapError (PassError.relabel label) =
      (table.check h others).mapError (PassError.relabel label) := by
  have first : ∀ faults : List PassError, (firstOf faults).mapError (PassError.relabel label) =
      firstOf (faults.map (PassError.relabel label)) := fun faults => by cases faults <;> rfl
  have inside : ∀ root ∈ roots, root < g.size := fun root listed => (formed.roots root listed).1
  have otherInside : ∀ root ∈ others, root < h.size := fun root listed =>
    (otherFormed.roots root listed).1
  rw [check_eq_firstOf formed.closed formed.acyclic inside,
    check_eq_firstOf otherFormed.closed otherFormed.acyclic otherInside, first, first,
    List.map_flatMap, List.map_flatMap]
  refine congrArg firstOf (flatMap_eq_of_forall₂ begun fun root listed other rootPair => ?_)
  obtain ⟨m, n, found, otherFound, _⟩ := rootPair.nodes
  have begins : ∀ id ∈ some root, id < g.size := by simpa using inside root listed
  have otherBegins : ∀ id ∈ some other, id < h.size := by
    simpa using lt_size_of_get?_eq_some otherFound
  have behind := table.faults_running formed.closed formed.acyclic begins
  have otherBehind := table.faults_running otherFormed.closed otherFormed.acyclic otherBegins
  rw [Option.toList_some, List.flatMap_singleton] at behind otherBehind
  rw [behind, otherBehind, List.map_flatMap, List.map_flatMap]
  refine flatMap_eq_of_forall₂ rootPair.runs fun id runs other paired => ?_
  have start : ∀ head ∈ some root, g.Suffices (g.size, head) := by
    simpa using ⟨inside root listed, extent_le_size root⟩
  have enough := Suffices.of_running formed.closed start runs
  exact faultsInside_paired formed.closed formed.acyclic otherFormed.closed otherFormed.acyclic
    pairing enough paired

end HandlerTable

end BlockVerilog
