import Mathlib
import BlockVerilog.Proofs.Handlers.OneLine
import BlockVerilog.Proofs.Pass.Depth
import BlockVerilog.Proofs.Pass.Rests
import BlockVerilog.Proofs.Pass.Running
import BlockVerilog.Proofs.Pass.Steps
import BlockVerilog.Proofs.Text.FullLines

/-!
Statements print whole lines.

Whatever the settings and the texts of fields are, an expression stays on one line, and a statement
is whole lines that begin visibly. So what a chain puts together shares no line: neither two
statements, nor a comment and the statement behind it.
-/

namespace BlockVerilog

open Text

namespace Pass

variable {α β : Type} {post weaker : α → Prop} {postNext : β → Prop}

/-- From each state that a pass can be in, a computation leaves such a state if it gives a result,
and the result has `post`. -/
def Yields (post : α → Prop) (c : Pass α) : Prop :=
  ∀ state a after, state.IsReached → c.outcome state = (.ok a, after) → after.IsReached ∧ post a

theorem yields_pure {a : α} (holds : post a) : Yields post (pure a) := by
  intro state _ _ reached ran
  cases ran
  exact ⟨reached, holds⟩

theorem yields_throw (e : PassError) : Yields post (throw e) := by
  intro state _ _ _ ran
  cases ran

theorem yields_bind {c : Pass α} {f : α → Pass β} (first : c.Yields post)
    (next : ∀ a, post a → (f a).Yields postNext) : (c >>= f).Yields postNext := by
  intro state b after reached ran
  obtain ⟨a, between, begun, ends⟩ := exists_of_outcome_bind ran
  obtain ⟨reachedBetween, holds⟩ := first state a between reached begun
  exact next a holds between b after reachedBetween ends

end Pass

namespace Text

/-- A text that is not empty, begins with something else than white space, and ends with a
newline. -/
structure WholeLines (text : String) : Prop where
  nonempty : text ≠ ""
  opens : ∃ c, text.toList.head? = some c ∧ isBlank c = false
  ends : text.toList.getLast? = some '\n'

theorem IsBlock.wholeLines {text : String} (block : IsBlock text) : WholeLines text where
  nonempty := block.ne_empty
  opens := by
    obtain ⟨c, rest, same, visible⟩ := exists_cons_of_opens block.opens
    exact ⟨c, by rw [same, List.head?_cons], visible⟩
  ends := by
    obtain ⟨body, same, _⟩ := block.closes
    rw [same, List.getLast?_concat]

theorem IsInline.ne_empty {text : String} (inline : IsInline text) : text ≠ "" := by
  rintro rfl
  exact absurd inline.visible (by decide)

theorem IsInline.parenthesize {text : String} (inline : IsInline text)
    (child required : Precedence) : IsInline (parenthesize text child required) where
  visible := Generator.solid_parenthesize inline.visible child required
  oneLine := oneLine_parenthesize inline.oneLine child required

end Text

namespace Generator

open Pass PassState

/-- The answers of an engine: expressions on one line, and chains of blocks. -/
structure EngineYieldsLines (below : Engine) : Prop where
  expression : ∀ id, (below.expression id).Yields fun given => ∀ e ∈ given, IsInline e.1
  chain : ∀ id, (below.chain id).Yields IsBlocks

variable {gen : Generator}

theorem node_yields (id : NodeId) :
    (gen.node id).Yields fun node => gen.graph.get? id = some node := by
  unfold Generator.node
  split
  next node found => exact yields_pure found
  next => exact yields_throw _

theorem variableName_yields (id : String) : (gen.variableName id).Yields IsInline := by
  intro state name after reached ran
  cases ran
  have reachedAfter := reached.nameVariable id ((gen.graph.variableName? id).getD id)
  exact ⟨reachedAfter, isInline_of_isLegal
    (reachedAfter.allLegal _ _ (state.lookup_nameVariable id _))⟩

theorem freshName_yields (wanted : String) : (freshName wanted).Yields IsInline := by
  intro state name after reached ran
  cases ran
  have reachedAfter := reached.nameHelper wanted
  exact ⟨reachedAfter, isInline_of_isLegal
    (reachedAfter.allLegal _ _ (Names.lookup_allocate state.names _ wanted))⟩

theorem define_yields (key text : String) : (define key text).Yields fun _ => True := by
  intro state isNew after reached ran
  cases ran
  exact ⟨reached.declare key text, trivial⟩

section

variable {below : Engine} (lines : EngineYieldsLines below)
include lines

theorem value_yields (id : NodeId) (slot : String) (required : Precedence) :
    (gen.value below id slot required).Yields fun text => ∀ given ∈ text, IsInline given := by
  apply yields_bind (node_yields id)
  intro node _
  cases node.values.target? slot with
  | none => exact yields_pure (by simp)
  | some child =>
      apply yields_bind (lines.expression child)
      intro given inline
      cases given with
      | none => exact yields_pure (by simp)
      | some given =>
          apply yields_pure
          split
          next => simp
          next => simpa using (inline given rfl).parenthesize _ _

theorem statements_yields (id : NodeId) (slot : String) :
    (gen.statements below id slot).Yields IsBody := by
  apply yields_bind (node_yields id)
  intro node _
  cases node.statements.target? slot with
  | none => exact yields_pure (.inl rfl)
  | some head =>
      apply yields_bind (lines.chain head)
      intro text blocks
      exact yields_pure (blocks.isBody.indentLines _)

theorem run_yields {α : Type} {post : α → Prop} {script : Script α}
    (makes : script.MakesFrom IsInline post) : (gen.run below script).Yields post := by
  induction script with
  | done a => exact yields_pure makes
  | fail e => exact yields_throw e
  | value id slot required next inductionHypothesis =>
      apply yields_bind (value_yields lines id slot required)
      intro text inline
      exact inductionHypothesis text (makes text inline)
  | statements id slot next inductionHypothesis =>
      apply yields_bind (statements_yields lines id slot)
      intro body whole
      exact inductionHypothesis body (makes body whole)
  | variableName id next inductionHypothesis =>
      apply yields_bind (variableName_yields id)
      intro name inline
      exact inductionHypothesis name (makes name inline)
  | freshName wanted next inductionHypothesis =>
      apply yields_bind (freshName_yields wanted)
      intro name inline
      exact inductionHypothesis name (makes name inline)
  | define key text next inductionHypothesis =>
      apply yields_bind (define_yields key text)
      intro isNew _
      exact inductionHypothesis isNew (makes isNew)

variable (handlers : gen.table.MakesLines)
include handlers

theorem expressionAt_yields (id : NodeId) :
    (gen.expressionAt below id).Yields fun given => ∀ e ∈ given, IsInline e.1 := by
  apply yields_bind (node_yields id)
  intro node _
  split
  next =>
    split
    next generate registered =>
      apply yields_bind (run_yields lines (handlers _ _ registered (gen.site id node)))
      intro given inline
      exact yields_pure (by simpa using inline)
    next => exact yields_throw _
    next => exact yields_throw _
  next => exact yields_pure (by simp)

theorem statementAt_yields (id : NodeId) : (gen.statementAt below id).Yields IsBlock := by
  apply yields_bind (node_yields id)
  intro node _
  split
  next generate registered => exact run_yields lines (handlers _ _ registered (gen.site id node))
  next => exact yields_throw _
  next => exact yields_throw _

theorem commented_yields (id : NodeId) : (gen.commented below id).Yields IsBlocks := by
  apply yields_bind (node_yields id)
  intro node _
  split
  next =>
    apply yields_bind (statementAt_yields lines handlers id)
    intro text block
    exact yields_pure (.inr (isBlock_commented block))
  next => exact yields_pure (.inl rfl)

theorem commentedAll_yields (ids : List NodeId) :
    (gen.commentedAll below ids).Yields IsBlocks := by
  induction ids with
  | nil => exact yields_pure (.inl rfl)
  | cons id rest inductionHypothesis =>
      apply yields_bind (commented_yields lines handlers id)
      intro first blocks
      apply yields_bind inductionHypothesis
      intro more moreBlocks
      exact yields_pure (blocks.append moreBlocks)

theorem chainAt_yields (head : NodeId) : (gen.chainAt below head).Yields IsBlocks := by
  apply yields_bind (commentedAll_yields lines handlers _)
  intro text blocks
  split
  next => exact yields_pure blocks
  next => exact yields_throw _

end

theorem engine_yields (handlers : gen.table.MakesLines) (depth : Nat) :
    EngineYieldsLines (gen.engine depth) := by
  induction depth with
  | zero => exact ⟨fun _ => yields_throw _, fun _ => yields_throw _⟩
  | succ depth inductionHypothesis =>
      rw [engine_succ]
      exact ⟨expressionAt_yields inductionHypothesis handlers,
        chainAt_yields inductionHypothesis handlers⟩

/-- What a chain is put together from: for each statement its comments and its own text, which is
made from the state that the one before it left. -/
inductive Chained (gen : Generator) : List NodeId → PassState → List String → PassState → Prop
  | nil {state : PassState} : Chained gen [] state [] state
  | cons {id : NodeId} {ids : List NodeId} {state between after : PassState} {text : String}
      {pieces : List String} (prints : (gen.statement id).outcome state = (.ok text, between))
      (rest : Chained gen ids between pieces after) :
      Chained gen (id :: ids) state (gen.commentsBefore id :: text :: pieces) after

/-- A chain is the statements that run in it, with answers about everything below them. -/
theorem whole_chain {roots : List NodeId} (isLocal : gen.table.IsLocal)
    (formed : gen.graph.WellFormed roots) {head : NodeId} (inside : head < gen.graph.size) :
    gen.whole.chain head = gen.commentedAll gen.whole (gen.graph.running (some head)) := by
  have deeper := (engine_congr formed.closed formed.acyclic isLocal inside (span_le_size head)
    ((span_le_size head).trans (Nat.le_succ _))).2
  have enough : ∀ id ∈ some head, gen.graph.Suffices (gen.graph.size + 1, id) := by
    intro id isHead
    obtain rfl := Option.some.inj isHead
    exact ⟨inside, (Graph.extent_le_size _).trans (Nat.le_succ _)⟩
  exact deeper.trans (heldChain_engine formed.closed formed.acyclic enough)

theorem chained_of_commentedAll {ids : List NodeId} (enabled : ∀ id ∈ ids, gen.graph.isEnabled id)
    {state after : PassState} {text : String}
    (ran : (gen.commentedAll gen.whole ids).outcome state = (.ok text, after)) :
    ∃ pieces, gen.Chained ids state pieces after ∧ text = String.join pieces := by
  induction ids generalizing state text with
  | nil =>
      cases ran
      exact ⟨[], .nil, rfl⟩
  | cons id ids inductionHypothesis =>
      rw [List.forall_mem_cons] at enabled
      obtain ⟨node, found, on⟩ := Graph.isEnabled_iff.mp enabled.1
      rw [commentedAll, commented_of_enabled found on] at ran
      obtain ⟨first, between, commented, ran⟩ := exists_of_outcome_bind ran
      obtain ⟨more, last, later, ends⟩ := exists_of_outcome_bind ran
      cases ends
      obtain ⟨statement, stated, prints, joins⟩ := exists_of_outcome_bind commented
      cases joins
      obtain ⟨pieces, chained, rfl⟩ := inductionHypothesis enabled.2 later
      refine ⟨_, .cons prints chained, ?_⟩
      simp only [String.join_cons, String.append_assoc]

theorem exists_chained {roots : List NodeId} (isLocal : gen.table.IsLocal)
    (formed : gen.graph.WellFormed roots) {head : NodeId} (inside : head < gen.graph.size)
    {state after : PassState} {text : String}
    (ran : (gen.whole.chain head).outcome state = (.ok text, after)) :
    ∃ pieces, gen.Chained (gen.graph.running (some head)) state pieces after ∧
      text = String.join pieces := by
  rw [whole_chain isLocal formed inside] at ran
  exact chained_of_commentedAll (fun id runs => (Graph.mem_running runs).1) ran

theorem endsLine_commentsBefore (id : NodeId) : EndsLine (gen.commentsBefore id).toList := by
  rw [commentsBefore, String.toList_ofList]
  exact (gen.graph.isRemark_commentsBefore _ id).endsLine

theorem statement_yields (handlers : gen.table.MakesLines) (id : NodeId) :
    (gen.statement id).Yields IsBlock :=
  statementAt_yields (engine_yields handlers _) handlers id

/-- Each piece of a chain ends its last line. -/
theorem Chained.endsLine (handlers : gen.table.MakesLines) {ids : List NodeId}
    {state after : PassState} {pieces : List String} (chained : gen.Chained ids state pieces after)
    (reached : state.IsReached) : ∀ piece ∈ pieces, EndsLine piece.toList := by
  induction chained with
  | nil => exact List.forall_mem_nil _
  | @cons id _ _ _ _ _ _ prints _ inductionHypothesis =>
      obtain ⟨reachedBetween, block⟩ := statement_yields handlers id _ _ _ reached prints
      rw [List.forall_mem_cons, List.forall_mem_cons]
      exact ⟨endsLine_commentsBefore id, block.closes.endsLine, inductionHypothesis reachedBetween⟩

/-- A statement is whole lines that begin visibly, and an expression stays on one line. A chain is
its comments and statements one after the other, and its lines are those of each of them. -/
theorem statements_keep_lines (builtin : gen.table = .builtin) {roots : List NodeId}
    (accepted : gen.graph.validate roots = .ok ()) {state : PassState}
    (reached : state.IsReached) :
    (∀ id text after, (gen.statement id).outcome state = (.ok text, after) → WholeLines text) ∧
      (∀ id text level after,
        (gen.whole.expression id).outcome state = (.ok (some (text, level)), after) →
          text ≠ "" ∧ '\n' ∉ text.toList) ∧
      ∀ head text after, head < gen.graph.size →
        (gen.whole.chain head).outcome state = (.ok text, after) →
          ∃ pieces, gen.Chained (gen.graph.running (some head)) state pieces after ∧
            text = String.join pieces ∧ (∀ piece ∈ pieces, EndsLine piece.toList) ∧
            fullLines text.toList = pieces.flatMap fun piece => fullLines piece.toList := by
  have formed := Graph.validate_eq_ok_iff.mp accepted
  have handlers : gen.table.MakesLines := builtin ▸ HandlerTable.builtin_makesLines
  have isLocal : gen.table.IsLocal := builtin ▸ HandlerTable.builtin_isLocal
  refine ⟨fun id text after ran => ?_, fun id text level after ran => ?_,
    fun head text after inside ran => ?_⟩
  · exact (statement_yields handlers id _ _ _ reached ran).2.wholeLines
  · have inline := ((engine_yields handlers _).expression id _ _ _ reached ran).2 _ rfl
    exact ⟨inline.ne_empty, inline.oneLine⟩
  · obtain ⟨pieces, chained, rfl⟩ := exists_chained isLocal formed inside ran
    have ends := chained.endsLine handlers reached
    exact ⟨pieces, chained, rfl, ends, fullLines_join ends⟩

/-- Commented statements, one of them behind a delay, with an indentation that shows. -/
def remarked : Generator where
  graph :=
    { nodes := #[
        { Node.blank "time_block" .statement with
          comment := "wait"
          values := .ofList [("arg1", some 1)]
          statements := .ofList [("arg2", some 2)]
          next := some 4 },
        Node.blank "one" .expression,
        { Node.blank "assign_block" .statement with
          fields := .ofList [("var", .text "y")]
          values := .ofList [("NAME", some 3)] },
        { Node.blank "zero" .expression with comment := "low" },
        { Node.blank "finish_block" .statement with comment := "stop" }]
      vars := [⟨"y", "out"⟩] }
  table := .builtin
  config := ⟨"| ", 60, none, []⟩

theorem remarked_keeps_lines :
    (remarked.table = .builtin ∧ remarked.graph.validate [0] = .ok () ∧
      (PassState.initial remarked.config).IsReached) ∧
      ∃ text after pieces,
        text = "// wait\n#1\n| // low\n| assign out = 0;\n// stop\n$finish;\n" ∧
        (remarked.whole.chain 0).outcome (.initial remarked.config) = (.ok text, after) ∧
        remarked.Chained [0, 4] (.initial remarked.config) pieces after ∧
        fullLines text.toList = pieces.flatMap fun piece => fullLines piece.toList := by
  have accepted : remarked.graph.validate [0] = .ok () := by cbv
  have reached : (PassState.initial remarked.config).IsReached := .initial _
  have ran : (remarked.whole.chain 0).outcome (.initial remarked.config) =
      (.ok "// wait\n#1\n| // low\n| assign out = 0;\n// stop\n$finish;\n", _) :=
    Prod.ext (by cbv) rfl
  obtain ⟨pieces, chained, _, _, lines⟩ :=
    (statements_keep_lines rfl accepted reached).2.2 0 _ _ (by decide) ran
  exact ⟨⟨rfl, accepted, reached⟩, _, _, pieces, rfl, ran, chained, lines⟩

end Generator

end BlockVerilog
