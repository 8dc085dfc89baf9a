import Mathlib.Data.List.Chain
import BlockVerilog.Proofs.Handlers.Branches
import BlockVerilog.Proofs.Pass.Depth

/-!
A validated graph is generated in finitely many steps, none of which leaves the graph.

Generation has no check of its own against cycles. Its calls nest along the links of the graph, and
its loops follow them, so that the validation of the graph bounds both.
-/

namespace BlockVerilog

open Relation Loop

namespace Graph

variable {g : Graph}

/-- A call of a node calls another: the expression in a value slot, or a statement of the chain in a
statement slot. -/
def Dispatches (g : Graph) (source target : NodeId) : Prop :=
  g.LinksValue source target ∨
    ∃ head, g.LinksStatement source head ∧ ReflTransGen g.LinksNext head target

theorem Dispatches.leads {source target : NodeId} (dispatch : g.Dispatches source target) :
    TransGen g.Links source target := by
  rcases dispatch with value | ⟨head, statement, follows⟩
  · exact .single value.links
  · exact TransGen.head' statement.links (reaches_of_follows follows)

theorem lt_size_of_nested (closed : g.Closed) {path : List NodeId}
    (nested : path.IsChain g.Dispatches) (inside : ∀ id ∈ path.head?, id < g.size) :
    ∀ id ∈ path, id < g.size := by
  induction path with
  | nil => simp
  | cons source rest inductionHypothesis =>
      have first : source < g.size := inside source rfl
      refine List.forall_mem_cons.mpr ⟨first, inductionHypothesis nested.tail fun target next => ?_⟩
      cases rest with
      | nil => simp at next
      | cons target' rest =>
          obtain rfl := Option.some.inj next
          have leads := (List.isChain_cons_cons.mp nested).1.leads
          exact closed.lt_size_of_reaches first leads.to_reflTransGen

theorem nodup_of_nested (acyclic : g.Acyclic) {path : List NodeId}
    (nested : path.IsChain g.Dispatches) : path.Nodup := by
  have leads : path.IsChain (TransGen g.Links) := nested.imp fun _ _ => Dispatches.leads
  apply leads.pairwise.imp
  intro source target path same
  exact acyclic source (same ▸ path)

theorem length_le_of_nested (closed : g.Closed) (acyclic : g.Acyclic) {path : List NodeId}
    (nested : path.IsChain g.Dispatches) (inside : ∀ id ∈ path.head?, id < g.size) :
    path.length ≤ g.size := by
  have within : path ⊆ g.ids := fun id listed =>
    mem_ids.mpr (lt_size_of_nested closed nested inside id listed)
  simpa [ids] using (List.subperm_of_subset (nodup_of_nested acyclic nested) within).length_le

end Graph

namespace PassError

/-- Neither a look-up outside the graph nor the end of the levels that calls may nest to. -/
def IsRegular (e : PassError) : Prop := e ≠ .endless ∧ ∀ id, e ≠ .absentNode id

end PassError

namespace Generator

open BlockVerilog.Graph Pass

variable {gen : Generator}

/-- A pass over a graph ends, and looks at nodes of the graph only. -/
structure Terminates (gen : Generator) (roots : List NodeId) : Prop where
  pass : (gen.generate roots).FailsOnly PassError.IsRegular
  /-- So does every call of a node that may nest as deep as the graph has nodes. -/
  calls : ∀ depth id, gen.graph.size ≤ depth → id < gen.graph.size →
    ((gen.engine depth).expression id).FailsOnly PassError.IsRegular ∧
      ((gen.engine depth).chain id).FailsOnly PassError.IsRegular
  /-- More levels change nothing. -/
  levels : ∀ depth id, gen.graph.size ≤ depth → id < gen.graph.size →
    (gen.engine depth).expression id = gen.whole.expression id ∧
      (gen.engine depth).chain id = gen.whole.chain id
  /-- Calls that nest are of distinct nodes of the graph. -/
  nesting : ∀ path : List NodeId, path.IsChain gen.graph.Dispatches →
    (∀ id ∈ path.head?, id < gen.graph.size) →
    path.Nodup ∧ path.length ≤ gen.graph.size ∧ ∀ id ∈ path, id < gen.graph.size
  /-- The loop over the statements after each other ends. -/
  chains : ∀ head, head < gen.graph.size →
    Visits gen.graph.following head (gen.graph.chain head).1 ∧
      ∀ id ∈ (gen.graph.chain head).1, id < gen.graph.size
  /-- The loop that harvests comments ends: its stack empties, whichever nodes are shared. -/
  comments : ∀ id, id < gen.graph.size → ∃ trace, Visits gen.graph.unstack [id] trace ∧
    trace.filterMap List.head? = gen.graph.harvest [(gen.graph.size, id)] ∧
      ∀ visited ∈ gen.graph.harvest [(gen.graph.size, id)], visited < gen.graph.size
  /-- The loop over the branches of a conditional ends. -/
  branches : ∀ id node, gen.graph.get? id = some node →
    Visits (countStep (Handlers.hasCondition node)) 0
      (List.range (Handlers.branchCount node))

/-- The built-in handlers neither look outside the graph nor run out of levels themselves. -/
theorem serves_builtin (g : Graph) (config : Config) (shape : Shape) (id : NodeId) (node : Node) :
    Serves ⟨g, .builtin, config⟩ PassError.IsRegular shape id node where
  handled handler registered _ := by
    refine ⟨HandlerTable.builtin_isLocal _ _ registered, fun e raised => ?_⟩
    obtain ⟨texts, _, _, rfl⟩ :=
      Handlers.raises_of_mem_builtin (HandlerTable.mem_builtin registered) raised
    simp [PassError.IsRegular]
  mismatched handler _ _ := by simp [PassError.IsRegular, mismatch]
  unhandled _ := by simp [PassError.IsRegular, unsupported]

theorem covers_builtin {g : Graph} (closed : g.Closed) (config : Config) :
    Covers ⟨g, .builtin, config⟩ PassError.IsRegular fun _ id => id < g.size where
  inside _ _ called := called
  serves shape id node _ _ _ := serves_builtin g config shape id node
  values _ _ node _ _ found _ hangs := closed _ _ (LinksValue.links ⟨node, found, hangs⟩)
  statements _ _ node _ _ found _ hangs := closed _ _ (LinksStatement.links ⟨node, found, hangs⟩)
  next _ _ _ link := closed _ _ link.links

theorem isRegular_of_check {table : HandlerTable} {g : Graph} {unseen work : List NodeId}
    {e : PassError} (fails : table.checkFrom g unseen work = .error e) : e.IsRegular := by
  fun_induction HandlerTable.checkFrom table g unseen work with
  | case1 => cases fails
  | case2 unseen id work _ _ inductionHypothesis => exact inductionHypothesis fails
  | case3 unseen id work _ node _ fault faulty =>
      obtain rfl := Except.error.inj fails
      split at faulty
      next =>
        unfold HandlerTable.fault? at faulty
        split at faulty
        next => obtain rfl := Option.some.inj faulty; simp [PassError.IsRegular]
        next =>
          split at faulty
          next => cases faulty
          next => obtain rfl := Option.some.inj faulty; simp [PassError.IsRegular]
      next => cases faulty
  | case4 unseen id work _ node _ _ inductionHypothesis => exact inductionHypothesis fails
  | case5 unseen id work _ inductionHypothesis => exact inductionHypothesis fails

theorem isRegular_of_precheck {roots : List NodeId} {e : PassError}
    (fails : gen.precheck roots = .error e) : e.IsRegular := by
  unfold precheck at fails
  split at fails
  next => obtain rfl := Except.error.inj fails; simp [PassError.IsRegular]
  next => exact isRegular_of_check fails

/-- Generation with the built-in handlers terminates on every graph that validation accepts. -/
theorem generation_terminates {g : Graph} {roots : List NodeId} (config : Config)
    (valid : g.validate roots = .ok ()) :
    Terminates ⟨g, .builtin, config⟩ roots := by
  obtain ⟨closed, _, _, _, inside, acyclic⟩ := validate_eq_ok_iff.mp valid
  have covers := covers_builtin closed config
  constructor
  case pass =>
    refine generate_failsOnly (fun e fails => isRegular_of_precheck fails) fun _ root listed => ?_
    have isInside := (inside root listed).1
    exact root_failsOnly closed acyclic covers (get?_eq_some isInside) isInside
  case calls =>
    intro depth id enough isInside
    have answers := engine_failsOnly closed acyclic covers ((span_le_size id).trans enough)
    exact ⟨answers.1 isInside, answers.2 isInside⟩
  case levels =>
    intro depth id enough isInside
    exact engine_congr closed acyclic HandlerTable.builtin_isLocal isInside
      ((span_le_size id).trans enough) (span_le_size id)
  case nesting =>
    intro path nested begins
    exact ⟨nodup_of_nested acyclic nested, length_le_of_nested closed acyclic nested begins,
      lt_size_of_nested closed nested begins⟩
  case chains =>
    intro head isInside
    refine ⟨visits_chain closed acyclic isInside, fun id listed => ?_⟩
    exact closed.lt_size_of_reaches isInside (reaches_of_follows (reaches_of_mem_chain listed))
  case comments =>
    intro id isInside
    exact visits_unstack_singleton closed acyclic isInside
  case branches =>
    intro id node _
    exact Handlers.visits_branches node

/-- Two branches that share their condition, which holds the same bit twice. -/
def sharedCondition : Graph where
  nodes := #[
    { Node.blank "controls_if" .statement with
      values := .ofList [("IF0", some 2), ("IF1", some 2)]
      statements := .ofList [("DO0", some 1)] },
    { Node.blank "finish_block" .statement with key := "stop" },
    { Node.blank "logic_operation" .expression with
      key := "condition", comment := "twice"
      values := .ofList [("A", some 3), ("B", some 3)] },
    { Node.blank "one" .expression with key := "bit" }]
  vars := []

theorem sharedCondition_terminates :
    sharedCondition.validate [0] = .ok () ∧
      Terminates ⟨sharedCondition, .builtin, .standard⟩ [0] :=
  ⟨by cbv, generation_terminates .standard (by cbv)⟩

end Generator

end BlockVerilog
