import BlockVerilog.Proofs.Graph.Running
import BlockVerilog.Proofs.Pass.Answers

/-!
What a slot gives, by the nodes that run there.

Disabled statements of a chain leave nothing behind, and a disabled expression answers like an empty
slot. So `held_chain` and `held_expression` read the answers about a slot off `running`.
-/

namespace BlockVerilog.Generator

open Relation BlockVerilog.Graph

/-- What an engine says about the expression in a slot. -/
def heldExpression (below : Engine) : Option NodeId → Pass (Option Expression)
  | none => pure none
  | some child => below.expression child

/-- What an engine says about the statements in a slot. -/
def heldChain (below : Engine) : Option NodeId → Pass String
  | none => pure ""
  | some head => below.chain head

def shown (required : Precedence) : Option Expression → Option String
  | none => none
  | some (text, level) => if text = "" then none else some (parenthesize text level required)

/-- The text of the expression that runs in a slot, if there is any. -/
def runningExpression (gen : Generator) (below : Engine) : List NodeId → Pass (Option Expression)
  | [] => pure none
  | id :: _ => gen.expressionAt below id

/-- An expression that is a root, as a statement. -/
def asStatement (gen : Generator) (id : NodeId) : Option Expression → String
  | none => ""
  | some (text, _) => if text = "" then "" else gen.commentsBefore id ++ text ++ ";\n"

def runningRoot (gen : Generator) (below : Engine) : List NodeId → Pass String
  | [] => pure ""
  | id :: _ => gen.expressionAt below id >>= fun given => pure (gen.asStatement id given)

variable {gen : Generator} {below : Engine} {id : NodeId} {node : Node}

theorem value_eq (found : gen.graph.get? id = some node) (slot : String) (required : Precedence) :
    gen.value below id slot required =
      heldExpression below (node.values.target? slot) >>= fun given =>
        pure (shown required given) := by
  unfold Generator.value
  rw [node_eq_pure found, pure_bind]
  cases node.values.target? slot with
  | none => rfl
  | some child =>
      refine bind_congr fun given => ?_
      cases given <;> rfl

theorem statements_eq (found : gen.graph.get? id = some node) (slot : String) :
    gen.statements below id slot =
      heldChain below (node.statements.target? slot) >>= fun body =>
        pure (Text.indentLines gen.config.indent body) := by
  unfold Generator.statements
  rw [node_eq_pure found, pure_bind]
  cases node.statements.target? slot with
  | none => rfl
  | some head => rfl

theorem precheck_of_wellFormed {roots : List NodeId} (formed : gen.graph.WellFormed roots) :
    gen.precheck roots = gen.table.check gen.graph roots := by
  rw [precheck, validate_eq_ok_iff.mpr formed]

theorem commented_of_enabled (found : gen.graph.get? id = some node) (on : node.enabled = true) :
    gen.commented below id = gen.statementAt below id >>= fun text =>
      pure (gen.commentsBefore id ++ text) := by
  unfold Generator.commented
  rw [node_eq_pure found, pure_bind, if_pos on]

theorem commented_of_disabled (found : gen.graph.get? id = some node) (off : node.enabled = false) :
    gen.commented below id = pure "" := by
  unfold Generator.commented
  rw [node_eq_pure found, pure_bind, if_neg (Bool.eq_false_iff.mp off)]

/-- The disabled statements of a list add nothing. -/
theorem commentedAll_filter {ids : List NodeId} (inside : ∀ id ∈ ids, id < gen.graph.size) :
    gen.commentedAll below (ids.filter gen.graph.isEnabled) = gen.commentedAll below ids := by
  induction ids with
  | nil => rfl
  | cons id rest inductionHypothesis =>
      rw [List.forall_mem_cons] at inside
      obtain ⟨node, found⟩ := exists_get? inside.1
      have enabled := isEnabled_of_get? found
      have others := inductionHypothesis inside.2
      cases on : node.enabled with
      | true =>
          rw [List.filter_cons_of_pos (enabled.trans on)]
          simp only [commentedAll, others]
      | false =>
          rw [List.filter_cons_of_neg (by simp [enabled, on]), others]
          simp only [commentedAll, commented_of_disabled found on, pure_bind, String.empty_append,
            bind_pure]

section

variable (closed : gen.graph.Closed) (acyclic : gen.graph.Acyclic)
include closed acyclic

/-- The statements of a slot are those that run there, with answers from one level further down. -/
theorem heldChain_engine {depth : Nat} {held : Option NodeId}
    (enough : ∀ head ∈ held, gen.graph.Suffices (depth, head)) :
    heldChain (gen.engine depth) held =
      gen.commentedAll (gen.engine (depth - 1)) (gen.graph.running held) := by
  cases held with
  | none => rfl
  | some head =>
      have suffice := enough head rfl
      obtain ⟨below, rfl⟩ := Nat.exists_eq_succ_of_ne_zero suffice.pos.ne'
      have inside : ∀ id ∈ (gen.graph.chain head).1, id < gen.graph.size := fun id listed =>
        closed.lt_size_of_reaches suffice.1 (reaches_of_follows (reaches_of_mem_chain listed))
      have ends := chain_ends closed acyclic suffice.1
      have chain : heldChain (gen.engine (below + 1)) (some head) =
          gen.chainAt (gen.engine below) head := by
        rw [engine_succ]
        rfl
      rw [Nat.succ_eq_add_one, chain, chainAt, running, Option.toList_some, List.flatMap_cons,
        List.flatMap_nil, List.append_nil, commentedAll_filter inside]
      simp only [ends, if_true, bind_pure, Nat.add_sub_cancel]

/-- The expression of a slot is the one that runs there. -/
theorem heldExpression_engine {depth : Nat} {held : Option NodeId}
    (enough : ∀ child ∈ held, gen.graph.Suffices (depth, child))
    (last : ∀ child ∈ held, gen.graph.following child = none) :
    heldExpression (gen.engine depth) held =
      gen.runningExpression (gen.engine (depth - 1)) (gen.graph.running held) := by
  cases held with
  | none => rfl
  | some child =>
      have suffice := enough child rfl
      obtain ⟨below, rfl⟩ := Nat.exists_eq_succ_of_ne_zero suffice.pos.ne'
      obtain ⟨node, found⟩ := exists_get? suffice.1
      have enabled := isEnabled_of_get? found
      have expression : heldExpression (gen.engine (below + 1)) (some child) =
          gen.expressionAt (gen.engine below) child := by
        rw [engine_succ]
        rfl
      rw [Nat.succ_eq_add_one, expression,
        running_of_following_eq_none closed acyclic suffice.1 (last child rfl)]
      cases on : node.enabled with
      | true =>
          rw [List.filter_cons_of_pos (enabled.trans on)]
          rfl
      | false =>
          rw [List.filter_cons_of_neg (by simp [enabled, on]), expressionAt_of_disabled found on]
          rfl

omit closed acyclic in
theorem root_of_statement (found : gen.graph.get? id = some node)
    (shape : node.shape = .statement) : gen.root id = heldChain gen.whole (some id) := by
  unfold Generator.root
  rw [node_eq_pure found, pure_bind, shape]
  rfl

theorem root_of_expression (found : gen.graph.get? id = some node)
    (shape : node.shape = .expression) (last : gen.graph.following id = none) :
    gen.root id = gen.runningRoot (gen.engine (gen.graph.size - 1))
      (gen.graph.running (some id)) := by
  have inside := lt_size_of_get?_eq_some found
  have enabled := isEnabled_of_get? found
  have answer : gen.root id = heldExpression gen.whole (some id) >>= fun given =>
      pure (gen.asStatement id given) := by
    unfold Generator.root
    rw [node_eq_pure found, pure_bind, shape]
    refine bind_congr fun given => ?_
    cases given <;> rfl
  have enough : ∀ child ∈ some id, gen.graph.Suffices (gen.graph.size, child) := by
    simpa using ⟨inside, extent_le_size id⟩
  rw [answer, whole, heldExpression_engine closed acyclic enough (by simpa using last),
    running_of_following_eq_none closed acyclic inside last]
  cases on : node.enabled with
  | true =>
      rw [List.filter_cons_of_pos (enabled.trans on)]
      rfl
  | false =>
      rw [List.filter_cons_of_neg (by simp [enabled, on])]
      rfl

end

end BlockVerilog.Generator
