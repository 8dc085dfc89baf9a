import BlockVerilog.Proofs.Handlers.Fate
import BlockVerilog.Proofs.Pass.Outcome

/-!
Whether a pass fails does not depend on its settings.

Two passes over one graph run side by side, from whatever states and under whatever settings. They
ask about the same nodes in the same order, so that they fail at the same node and with the same
error, though what they are answered has nothing in common.
-/

namespace BlockVerilog

namespace Pass

variable {α β : Type}

/-- How a computation ends, apart from what it gives. -/
def fate (c : Pass α) (state : PassState) : Except PassError Unit :=
  (c.outcome state).1.map fun _ => ()

/-- From whatever states, two computations both give a result or fail with the same error. -/
def SharesFate (first second : Pass α) : Prop :=
  ∀ state other, first.fate state = second.fate other

theorem sharesFate_pure (a b : α) : SharesFate (pure a) (pure b) := fun _ _ => rfl

theorem sharesFate_throw (e : PassError) : SharesFate (throw e : Pass α) (throw e) := fun _ _ => rfl

theorem sharesFate_get : SharesFate get get := fun _ _ => rfl

theorem sharesFate_modify (change otherChange : PassState → PassState) :
    SharesFate (modify change) (modify otherChange) := fun _ _ => rfl

theorem SharesFate.symm {first second : Pass α} (shares : SharesFate first second) :
    SharesFate second first := fun state other => (shares other state).symm

theorem fate_eq_error_iff {c : Pass α} {state : PassState} {e : PassError} :
    c.fate state = .error e ↔ (c.outcome state).1 = .error e := by
  unfold fate
  cases (c.outcome state).1 with
  | error raised => simp [Except.map]
  | ok a => simp [Except.map]

theorem fate_eq_ok_iff {c : Pass α} {state : PassState} :
    c.fate state = .ok () ↔ ∃ a, (c.outcome state).1 = .ok a := by
  unfold fate
  cases (c.outcome state).1 with
  | error raised => simp [Except.map]
  | ok a => simp [Except.map]

theorem sharesFate_bind {first second : Pass α} {firstNext secondNext : α → Pass β}
    (shares : SharesFate first second) (next : ∀ a b, SharesFate (firstNext a) (secondNext b)) :
    SharesFate (first >>= firstNext) (second >>= secondNext) := by
  intro state other
  have begun := shares state other
  unfold fate at begun ⊢
  rw [outcome_bind, outcome_bind]
  revert begun
  rcases first.outcome state with ⟨e | a, after⟩ <;>
    rcases second.outcome other with ⟨raised | b, otherAfter⟩ <;> intro begun
  · exact begun
  · cases begun
  · cases begun
  · exact next a b after otherAfter

end Pass

namespace Generator

open Pass

/-- A step that cannot fail has no part in the fate of a computation. -/
theorem sharesFate_define_left {α : Type} (key text : String) {first : Bool → Pass α}
    {second : Pass α} (next : ∀ isNew, SharesFate (first isNew) second) :
    SharesFate (define key text >>= first) second := by
  intro state other
  rw [fate, outcome_bind]
  exact next _ _ other

theorem sharesFate_define_right {α : Type} (key text : String) {first : Pass α}
    {second : Bool → Pass α} (next : ∀ isNew, SharesFate first (second isNew)) :
    SharesFate first (define key text >>= second) :=
  (sharesFate_define_left key text fun isNew => (next isNew).symm).symm

/-- Two engines fail alike. -/
structure EngineSharesFate (first second : Engine) : Prop where
  expression : ∀ id, SharesFate (first.expression id) (second.expression id)
  chain : ∀ id, SharesFate (first.chain id) (second.chain id)

/-- The same generator under other settings. -/
def under (gen : Generator) (config : Config) : Generator := { gen with config := config }

@[simp] theorem under_graph (gen : Generator) (config : Config) :
    (gen.under config).graph = gen.graph := rfl

@[simp] theorem under_table (gen : Generator) (config : Config) :
    (gen.under config).table = gen.table := rfl

@[simp] theorem under_precheck (gen : Generator) (config : Config) (roots : List NodeId) :
    (gen.under config).precheck roots = gen.precheck roots := rfl

section

variable {gen : Generator} {config : Config} {first second : Engine}

/-- The nodes of a graph are looked up alike, whatever is made of them. -/
theorem sharesFate_node_bind {α : Type} {id : NodeId} {firstNext secondNext : Node → Pass α}
    (next : ∀ node, SharesFate (firstNext node) (secondNext node)) :
    SharesFate (gen.node id >>= firstNext) ((gen.under config).node id >>= secondNext) := by
  change SharesFate (gen.node id >>= firstNext) (gen.node id >>= secondNext)
  unfold Generator.node
  cases gen.graph.get? id with
  | none => exact sharesFate_throw _
  | some node => exact next node

variable (engines : EngineSharesFate first second)
include engines

theorem sharesFate_value (id : NodeId) (slot : String) (required : Precedence) :
    SharesFate (gen.value first id slot required)
      ((gen.under config).value second id slot required) := by
  apply sharesFate_node_bind
  intro node
  cases node.values.target? slot with
  | none => exact sharesFate_pure _ _
  | some child =>
      apply sharesFate_bind (engines.expression child)
      intro given otherGiven
      cases given <;> cases otherGiven <;> exact sharesFate_pure _ _

theorem sharesFate_statements (id : NodeId) (slot : String) :
    SharesFate (gen.statements first id slot) ((gen.under config).statements second id slot) := by
  apply sharesFate_node_bind
  intro node
  cases node.statements.target? slot with
  | none => exact sharesFate_pure _ _
  | some head =>
      apply sharesFate_bind (engines.chain head)
      intro _ _
      exact sharesFate_pure _ _

theorem sharesFate_run {α : Type} {script other : Script α} (shares : script.SharesFate other) :
    SharesFate (gen.run first script) ((gen.under config).run second other) := by
  induction shares with
  | done a b => exact sharesFate_pure a b
  | fail e => exact sharesFate_throw e
  | value id slot required _ inductionHypothesis =>
      exact sharesFate_bind (sharesFate_value engines id slot required) inductionHypothesis
  | statements id slot _ inductionHypothesis =>
      exact sharesFate_bind (sharesFate_statements engines id slot) inductionHypothesis
  | variableName id _ inductionHypothesis =>
      exact sharesFate_bind (fun _ _ => rfl) inductionHypothesis
  | freshName wanted _ inductionHypothesis =>
      exact sharesFate_bind (fun _ _ => rfl) inductionHypothesis
  | defineLeft key text _ inductionHypothesis =>
      exact sharesFate_define_left key text inductionHypothesis
  | defineRight key text _ inductionHypothesis =>
      exact sharesFate_define_right key text inductionHypothesis

variable (ignores : gen.table.IgnoresSettings)
include ignores

theorem sharesFate_expressionAt (id : NodeId) :
    SharesFate (gen.expressionAt first id) ((gen.under config).expressionAt second id) := by
  apply sharesFate_node_bind
  intro node
  rw [under_table]
  by_cases enabled : node.enabled = true
  · rw [if_pos enabled, if_pos enabled]
    cases registered : gen.table.get? node.kind with
    | none => exact sharesFate_throw _
    | some handler =>
        have shares := ignores _ _ registered
        cases handler with
        | statement => exact sharesFate_throw _
        | expression generate =>
            apply sharesFate_bind (sharesFate_run engines (shares (gen.site id node) config))
            intro _ _
            exact sharesFate_pure _ _
  · rw [if_neg enabled, if_neg enabled]
    exact sharesFate_pure _ _

theorem sharesFate_statementAt (id : NodeId) :
    SharesFate (gen.statementAt first id) ((gen.under config).statementAt second id) := by
  apply sharesFate_node_bind
  intro node
  rw [under_table]
  cases registered : gen.table.get? node.kind with
  | none => exact sharesFate_throw _
  | some handler =>
      have shares := ignores _ _ registered
      cases handler with
      | expression => exact sharesFate_throw _
      | statement generate => exact sharesFate_run engines (shares (gen.site id node) config)

theorem sharesFate_commented (id : NodeId) :
    SharesFate (gen.commented first id) ((gen.under config).commented second id) := by
  apply sharesFate_node_bind
  intro node
  by_cases enabled : node.enabled = true
  · rw [if_pos enabled, if_pos enabled]
    apply sharesFate_bind (sharesFate_statementAt engines ignores id)
    intro _ _
    exact sharesFate_pure _ _
  · rw [if_neg enabled, if_neg enabled]
    exact sharesFate_pure _ _

theorem sharesFate_commentedAll (ids : List NodeId) :
    SharesFate (gen.commentedAll first ids) ((gen.under config).commentedAll second ids) := by
  induction ids with
  | nil => exact sharesFate_pure _ _
  | cons id rest inductionHypothesis =>
      apply sharesFate_bind (sharesFate_commented engines ignores id)
      intro _ _
      apply sharesFate_bind inductionHypothesis
      intro _ _
      exact sharesFate_pure _ _

theorem sharesFate_chainAt (head : NodeId) :
    SharesFate (gen.chainAt first head) ((gen.under config).chainAt second head) := by
  unfold chainAt
  rw [under_graph]
  rcases gen.graph.chain head with ⟨ids, ends⟩
  apply sharesFate_bind (sharesFate_commentedAll engines ignores ids)
  intro _ _
  cases ends with
  | true => exact sharesFate_pure _ _
  | false => exact sharesFate_throw _

end

section

variable {gen : Generator} (ignores : gen.table.IgnoresSettings) (config : Config)
include ignores

theorem engineSharesFate_engine (depth : Nat) :
    EngineSharesFate (gen.engine depth) ((gen.under config).engine depth) := by
  induction depth with
  | zero => exact ⟨fun _ => sharesFate_throw _, fun _ => sharesFate_throw _⟩
  | succ depth inductionHypothesis =>
      rw [engine_succ, engine_succ]
      exact ⟨sharesFate_expressionAt inductionHypothesis ignores,
        sharesFate_chainAt inductionHypothesis ignores⟩

theorem sharesFate_root (id : NodeId) :
    SharesFate (gen.root id) ((gen.under config).root id) := by
  have engines := engineSharesFate_engine ignores config gen.graph.size
  apply sharesFate_node_bind
  intro node
  cases node.shape with
  | statement => exact engines.chain id
  | expression =>
      apply sharesFate_bind (engines.expression id)
      intro given otherGiven
      cases given <;> cases otherGiven <;> exact sharesFate_pure _ _

theorem sharesFate_rootTexts (roots : List NodeId) :
    SharesFate (gen.rootTexts roots) ((gen.under config).rootTexts roots) := by
  induction roots with
  | nil => exact sharesFate_pure _ _
  | cons id rest inductionHypothesis =>
      apply sharesFate_bind (sharesFate_root ignores config id)
      intro _ _
      apply sharesFate_bind inductionHypothesis
      intro _ _
      exact sharesFate_pure _ _

theorem sharesFate_generate (roots : List NodeId) :
    SharesFate (gen.generate roots) ((gen.under config).generate roots) := by
  unfold generate
  rw [under_precheck]
  cases gen.precheck roots with
  | error e => exact sharesFate_throw e
  | ok =>
      apply sharesFate_bind (sharesFate_modify _ _)
      intro _ _
      apply sharesFate_bind (sharesFate_rootTexts ignores config roots)
      intro _ _
      apply sharesFate_bind sharesFate_get
      intro _ _
      exact sharesFate_pure _ _

end

end Generator

end BlockVerilog
