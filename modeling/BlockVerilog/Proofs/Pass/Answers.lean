import BlockVerilog.Proofs.Graph.Loops
import BlockVerilog.Proofs.Handlers.Locality
import BlockVerilog.Proofs.Pass.Outcome

/-!
What a script sees of the engine below it.

A script that asks about one node only sees the answers about what hangs in the slots of that node:
it runs the same on engines that agree there, and fails as they do or by itself.
-/

namespace BlockVerilog.Generator

open BlockVerilog.Graph Pass

variable {gen : Generator} {id : NodeId} {node : Node}

theorem node_eq_pure (found : gen.graph.get? id = some node) : gen.node id = pure node := by
  simp [Generator.node, found]

theorem node_eq_throw (absent : gen.graph.get? id = none) :
    gen.node id = throw (.absentNode id) := by
  simp [Generator.node, absent]

/-- Two engines give the same answers about what hangs in the slots of a node. -/
structure Agree (gen : Generator) (id : NodeId) (first second : Engine) : Prop where
  expression : ∀ child, gen.graph.LinksValue id child →
    first.expression child = second.expression child
  chain : ∀ head, gen.graph.LinksStatement id head → first.chain head = second.chain head

/-- The answers of an engine about what hangs in the slots of a node fail with allowed errors
only. -/
structure Answers (gen : Generator) (allowed : PassError → Prop) (id : NodeId) (below : Engine) :
    Prop where
  expression : ∀ child, gen.graph.LinksValue id child →
    (below.expression child).FailsOnly allowed
  chain : ∀ head, gen.graph.LinksStatement id head → (below.chain head).FailsOnly allowed

variable {first second below : Engine} {allowed : PassError → Prop} {α : Type}

theorem value_congr (agree : gen.Agree id first second) (slot : String) (required : Precedence) :
    gen.value first id slot required = gen.value second id slot required := by
  unfold Generator.value
  cases found : gen.graph.get? id with
  | none => simp only [node_eq_throw found]; rfl
  | some node =>
      simp only [node_eq_pure found, pure_bind]
      cases holds : node.values.target? slot with
      | none => rfl
      | some child =>
          have same := agree.expression child ⟨node, found, Slots.mem_targets_of_target? holds⟩
          simp only [same]

theorem statements_congr (agree : gen.Agree id first second) (slot : String) :
    gen.statements first id slot = gen.statements second id slot := by
  unfold Generator.statements
  cases found : gen.graph.get? id with
  | none => simp only [node_eq_throw found]; rfl
  | some node =>
      simp only [node_eq_pure found, pure_bind]
      cases holds : node.statements.target? slot with
      | none => rfl
      | some head =>
          have same := agree.chain head ⟨node, found, Slots.mem_targets_of_target? holds⟩
          simp only [same]

/-- A script about one node sees of an engine only what hangs in the slots of that node. -/
theorem run_congr {script : Script α} (isLocal : script.IsLocal id)
    (agree : gen.Agree id first second) : gen.run first script = gen.run second script := by
  induction script with
  | done a => rfl
  | fail e => rfl
  | value asked slot required next inductionHypothesis =>
      obtain ⟨rfl, later⟩ := isLocal
      simp only [Generator.run, value_congr agree slot required]
      exact bind_congr fun text => inductionHypothesis text (later text)
  | statements asked slot next inductionHypothesis =>
      obtain ⟨rfl, later⟩ := isLocal
      simp only [Generator.run, statements_congr agree slot]
      exact bind_congr fun text => inductionHypothesis text (later text)
  | variableName _ next inductionHypothesis
  | freshName _ next inductionHypothesis
  | define _ _ next inductionHypothesis =>
      simp only [Generator.run]
      exact bind_congr fun answer => inductionHypothesis answer (isLocal answer)

theorem value_failsOnly (found : gen.graph.get? id = some node)
    (answers : gen.Answers allowed id below) (slot : String) (required : Precedence) :
    (gen.value below id slot required).FailsOnly allowed := by
  unfold Generator.value
  simp only [node_eq_pure found, pure_bind]
  split
  next => exact failsOnly_pure _
  next child holds =>
    refine failsOnly_bind
      (answers.expression child ⟨node, found, Slots.mem_targets_of_target? holds⟩) fun given => ?_
    cases given <;> exact failsOnly_pure _

theorem statements_failsOnly (found : gen.graph.get? id = some node)
    (answers : gen.Answers allowed id below) (slot : String) :
    (gen.statements below id slot).FailsOnly allowed := by
  unfold Generator.statements
  simp only [node_eq_pure found, pure_bind]
  split
  next => exact failsOnly_pure _
  next head holds =>
    exact failsOnly_bind (answers.chain head ⟨node, found, Slots.mem_targets_of_target? holds⟩)
      fun _ => failsOnly_pure _

/-- A script about one node fails with its own errors, or with those of the answers below. -/
theorem run_failsOnly {script : Script α} (found : gen.graph.get? id = some node)
    (isLocal : script.IsLocal id) (raises : ∀ e, script.Raises e → allowed e)
    (answers : gen.Answers allowed id below) : (gen.run below script).FailsOnly allowed := by
  induction script with
  | done a => exact failsOnly_pure a
  | fail e => exact failsOnly_throw (raises e rfl)
  | value asked slot required next inductionHypothesis =>
      obtain ⟨rfl, later⟩ := isLocal
      exact failsOnly_bind (value_failsOnly found answers slot required) fun text =>
        inductionHypothesis text (later text) fun e raised => raises e ⟨text, raised⟩
  | statements asked slot next inductionHypothesis =>
      obtain ⟨rfl, later⟩ := isLocal
      exact failsOnly_bind (statements_failsOnly found answers slot) fun text =>
        inductionHypothesis text (later text) fun e raised => raises e ⟨text, raised⟩
  | variableName _ next inductionHypothesis
  | freshName _ next inductionHypothesis
  | define _ _ next inductionHypothesis =>
      refine failsOnly_bind ?_ fun answer =>
        inductionHypothesis answer (isLocal answer) fun e raised => raises e ⟨answer, raised⟩
      exact failsOnly_bind failsOnly_get fun state =>
        failsOnly_bind (failsOnly_set _) fun _ => failsOnly_pure _

theorem expressionAt_of_disabled (found : gen.graph.get? id = some node)
    (off : node.enabled = false) : gen.expressionAt below id = pure none := by
  unfold Generator.expressionAt
  simp only [node_eq_pure found, pure_bind, off, Bool.false_eq_true, if_false]

theorem expressionAt_of_registered (found : gen.graph.get? id = some node)
    (on : node.enabled = true) {generate : Site → Script Expression}
    (registered : gen.table.get? node.kind = some (.expression generate)) :
    gen.expressionAt below id =
      gen.run below (generate (gen.site id node)) >>= fun given => pure (some given) := by
  unfold Generator.expressionAt
  simp only [node_eq_pure found, pure_bind, on, if_true, registered]

end BlockVerilog.Generator
