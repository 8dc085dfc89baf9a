import BlockVerilog.Proofs.Handlers.Layout
import BlockVerilog.Proofs.Names.State
import BlockVerilog.Proofs.Pass.Outcome

/-!
Comments and layout change no code.

A pass over a graph is run beside the pass over the same graph without comments, indentation and
wrapping. The two ask for the same names and declare the same texts, so that they stay in the same
state; where they give texts, these have the same code.
-/

namespace BlockVerilog

open Text

namespace Pass

variable {α β γ δ : Type}

/-- From each state with legal names two computations fail alike, or they give related results and
leave the same state, again with legal names. -/
def InStep (related : α → β → Prop) (first : Pass α) (second : Pass β) : Prop :=
  ∀ state, state.names.AllLegal →
    match first.outcome state, second.outcome state with
    | (.ok a, after), (.ok b, otherAfter) =>
        related a b ∧ after = otherAfter ∧ after.names.AllLegal
    | (.error e, _), (.error other, _) => e = other
    | _, _ => False

variable {related : α → β → Prop}

theorem inStep_pure {a : α} {b : β} (results : related a b) :
    InStep related (pure a) (pure b) := fun _ legal => ⟨results, rfl, legal⟩

theorem inStep_throw (e : PassError) : InStep related (throw e) (throw e) := fun _ _ => rfl

theorem inStep_bind {relatedNext : γ → δ → Prop} {first : Pass α} {second : Pass β}
    {firstNext : α → Pass γ} {secondNext : β → Pass δ} (inStep : InStep related first second)
    (next : ∀ a b, related a b → InStep relatedNext (firstNext a) (secondNext b)) :
    InStep relatedNext (first >>= firstNext) (second >>= secondNext) := by
  intro state legal
  have begun := inStep state legal
  revert begun
  rw [outcome_bind, outcome_bind]
  rcases first.outcome state with ⟨e | a, after⟩ <;>
    rcases second.outcome state with ⟨other | b, otherAfter⟩ <;> intro begun
  · exact begun
  · exact begun.elim
  · exact begun.elim
  · obtain ⟨results, rfl, legal⟩ := begun
    exact next a b results after legal

end Pass

/-- Each of its handlers makes the same code of bodies with the same code. -/
def HandlerTable.InStep (table : HandlerTable) : Prop :=
  ∀ kind handler, table.get? kind = some handler → handler.InStep

theorem HandlerTable.builtin_inStep : HandlerTable.builtin.InStep := fun _ _ registered =>
  Handlers.inStep_of_mem_builtin (mem_builtin registered)

/-- Only spaces and tabs are used for indentation. -/
def Config.IndentsBlank (config : Config) : Prop :=
  ∀ c ∈ config.indent.toList, isSpaceOrTab c = true

theorem solid_of_isLegal {name : String} (legal : Names.IsLegal name) : solid name = true :=
  Handlers.solid_of_isWord (Reading.isWord_of_isLegal legal)

namespace Generator

open Pass

/-- The same generation without comments and layout. -/
def plain (gen : Generator) : Generator := ⟨gen.graph.uncommented, gen.table, gen.config.plain⟩

@[simp] theorem table_plain (gen : Generator) : gen.plain.table = gen.table := rfl

/-- The same expression, visible if there is one, or none. -/
def SameAnswer (first second : Option Expression) : Prop :=
  first = second ∧ first.all (fun given => solid given.1) = true

def SameText (first second : Option String) : Prop := first = second ∧ first.all solid = true

def SameName (first second : String) : Prop := first = second ∧ solid first = true

/-- Two engines give the same expressions, and chains of statements with the same code. -/
structure EnginesInStep (below other : Engine) : Prop where
  expression : ∀ id, InStep SameAnswer (below.expression id) (other.expression id)
  chain : ∀ id, InStep SameBlocks (below.chain id) (other.chain id)

variable {gen : Generator} {below other : Engine}

theorem commentsBefore_plain (id : NodeId) : gen.plain.commentsBefore id = "" := by
  have none := gen.graph.commentsBefore_uncommented 0 id
  simp [commentsBefore, plain, Config.plain, none]

theorem node_inStep (id : NodeId) :
    InStep (fun node second => second = node.uncommented) (gen.node id) (gen.plain.node id) := by
  have same : gen.plain.graph.get? id = (gen.graph.get? id).map Node.uncommented :=
    gen.graph.get?_uncommented id
  unfold Generator.node
  rw [same]
  cases gen.graph.get? id with
  | none => exact inStep_throw _
  | some node => exact inStep_pure rfl

theorem variableName_inStep (id : String) :
    InStep SameName (gen.variableName id) (gen.plain.variableName id) := by
  intro state legal
  let requested := (gen.graph.variableName? id).getD id
  have allocated : (state.nameVariable id requested).2.names.AllLegal := legal.allocate _ _
  have named := allocated _ _ (state.lookup_nameVariable id _)
  exact ⟨⟨rfl, solid_of_isLegal named⟩, rfl, allocated⟩

theorem freshName_inStep (wanted : String) :
    InStep SameName (freshName wanted) (freshName wanted) := by
  intro state legal
  have allocated : (state.nameHelper wanted).2.names.AllLegal := legal.allocate _ _
  have named := allocated _ _ (Names.lookup_allocate state.names _ wanted)
  exact ⟨⟨rfl, solid_of_isLegal named⟩, rfl, allocated⟩

theorem define_inStep (key text : String) :
    InStep (fun first second => first = second) (define key text) (define key text) :=
  fun _ legal => ⟨rfl, rfl, legal⟩

theorem solid_parenthesize {text : String} (visible : solid text = true)
    (child required : Precedence) : solid (parenthesize text child required) = true := by
  unfold parenthesize
  split
  next => exact solid_append (by simp [opens_cons, isBlank, blankRanges]) (by decide)
  next => exact visible

section

variable (inStep : EnginesInStep below other)
include inStep

theorem value_inStep (id : NodeId) (slot : String) (required : Precedence) :
    InStep SameText (gen.value below id slot required)
      (gen.plain.value other id slot required) := by
  refine inStep_bind (node_inStep id) fun node _ same => ?_
  subst same
  simp only [Node.values_uncommented]
  cases node.values.target? slot with
  | none => exact inStep_pure ⟨rfl, rfl⟩
  | some child =>
      refine inStep_bind (inStep.expression child) fun given _ same => ?_
      obtain ⟨rfl, visible⟩ := same
      cases given with
      | none => exact inStep_pure ⟨rfl, rfl⟩
      | some given =>
          refine inStep_pure ⟨rfl, ?_⟩
          split
          next => rfl
          next => exact solid_parenthesize visible _ _

theorem statements_inStep (blank : gen.config.IndentsBlank) (id : NodeId) (slot : String) :
    InStep SameBody (gen.statements below id slot) (gen.plain.statements other id slot) := by
  refine inStep_bind (node_inStep id) fun node _ same => ?_
  subst same
  simp only [Node.statements_uncommented]
  cases node.statements.target? slot with
  | none => exact inStep_pure sameBody_empty
  | some head =>
      refine inStep_bind (inStep.chain head) fun body _ same => ?_
      exact inStep_pure (same.sameBody.indentLines blank)

theorem run_inStep {α : Type} {related : α → α → Prop} (blank : gen.config.IndentsBlank)
    {first second : Script α} (scripts : Script.InStep related first second) :
    InStep related (gen.run below first) (gen.plain.run other second) := by
  induction scripts with
  | done results => exact inStep_pure results
  | fail error => exact inStep_throw error
  | value id slot required next inductionHypothesis =>
      refine inStep_bind (value_inStep inStep id slot required) fun text _ same => ?_
      obtain ⟨rfl, visible⟩ := same
      exact inductionHypothesis text visible
  | statements id slot next inductionHypothesis =>
      exact inStep_bind (statements_inStep inStep blank id slot) inductionHypothesis
  | variableName id next inductionHypothesis =>
      refine inStep_bind (variableName_inStep id) fun name _ same => ?_
      obtain ⟨rfl, visible⟩ := same
      exact inductionHypothesis name visible
  | freshName wanted next inductionHypothesis =>
      refine inStep_bind (freshName_inStep wanted) fun name _ same => ?_
      obtain ⟨rfl, visible⟩ := same
      exact inductionHypothesis name visible
  | define key text next inductionHypothesis =>
      refine inStep_bind (define_inStep key text) fun isNew _ same => ?_
      obtain rfl := same
      exact inductionHypothesis isNew

variable (blank : gen.config.IndentsBlank) (handlers : gen.table.InStep)
include blank handlers

theorem expressionAt_inStep (id : NodeId) :
    InStep SameAnswer (gen.expressionAt below id) (gen.plain.expressionAt other id) := by
  refine inStep_bind (node_inStep id) fun node _ same => ?_
  subst same
  simp only [Node.kind_uncommented, table_plain]
  by_cases on : node.enabled = true
  · have onToo : node.uncommented.enabled = true := on
    rw [if_pos on, if_pos onToo]
    cases registered : gen.table.get? node.kind with
    | none => exact inStep_throw _
    | some handler =>
        have scripts := handlers _ _ registered
        cases handler with
        | statement generate => exact inStep_throw _
        | expression generate =>
            refine inStep_bind (run_inStep inStep blank (scripts (gen.site id node)))
              fun given _ same => ?_
            obtain ⟨rfl, visible⟩ := same
            exact inStep_pure ⟨rfl, visible⟩
  · have offToo : ¬node.uncommented.enabled = true := on
    rw [if_neg on, if_neg offToo]
    exact inStep_pure ⟨rfl, rfl⟩

theorem statementAt_inStep (id : NodeId) :
    InStep SameBlock (gen.statementAt below id) (gen.plain.statementAt other id) := by
  refine inStep_bind (node_inStep id) fun node _ same => ?_
  subst same
  simp only [Node.kind_uncommented, table_plain]
  cases registered : gen.table.get? node.kind with
  | none => exact inStep_throw _
  | some handler =>
      have scripts := handlers _ _ registered
      cases handler with
      | statement generate => exact run_inStep inStep blank (scripts (gen.site id node))
      | expression generate => exact inStep_throw _

theorem commented_inStep (id : NodeId) :
    InStep SameBlocks (gen.commented below id) (gen.plain.commented other id) := by
  refine inStep_bind (node_inStep id) fun node _ same => ?_
  subst same
  change InStep _ _ (if node.enabled then gen.plain.statementAt other id >>= fun text =>
    pure (gen.plain.commentsBefore id ++ text) else pure "")
  rw [commentsBefore_plain]
  split
  next =>
    refine inStep_bind (statementAt_inStep inStep blank handlers id) fun text second same => ?_
    rw [String.empty_append]
    exact inStep_pure (.inr (same.remark (Graph.isRemark_commentsBefore gen.graph _ id)))
  next => exact inStep_pure (.inl ⟨rfl, rfl⟩)

theorem commentedAll_inStep (ids : List NodeId) :
    InStep SameBlocks (gen.commentedAll below ids) (gen.plain.commentedAll other ids) := by
  induction ids with
  | nil => exact inStep_pure (.inl ⟨rfl, rfl⟩)
  | cons id rest inductionHypothesis =>
      exact inStep_bind (commented_inStep inStep blank handlers id) fun _ _ same =>
        inStep_bind inductionHypothesis fun _ _ sameRest => inStep_pure (same.append sameRest)

theorem chainAt_inStep (head : NodeId) :
    InStep SameBlocks (gen.chainAt below head) (gen.plain.chainAt other head) := by
  have chain : gen.plain.graph.chain head = gen.graph.chain head :=
    gen.graph.chain_uncommented head
  unfold chainAt
  rw [chain]
  refine inStep_bind (commentedAll_inStep inStep blank handlers _) fun text second same => ?_
  split
  next => exact inStep_pure same
  next => exact inStep_throw _

end

section

variable (blank : gen.config.IndentsBlank) (handlers : gen.table.InStep)
include blank handlers

theorem engine_inStep (depth : Nat) :
    EnginesInStep (gen.engine depth) (gen.plain.engine depth) := by
  induction depth with
  | zero => exact ⟨fun _ => inStep_throw _, fun _ => inStep_throw _⟩
  | succ depth inductionHypothesis =>
      rw [engine_succ, engine_succ]
      exact ⟨expressionAt_inStep inductionHypothesis blank handlers,
        chainAt_inStep inductionHypothesis blank handlers⟩

theorem whole_inStep : EnginesInStep gen.whole gen.plain.whole := by
  have size : gen.plain.graph.size = gen.graph.size := gen.graph.size_uncommented
  rw [whole, whole, size]
  exact engine_inStep blank handlers _

theorem root_inStep (id : NodeId) : InStep SameBlocks (gen.root id) (gen.plain.root id) := by
  have engines := whole_inStep blank handlers
  refine inStep_bind (node_inStep id) fun node _ same => ?_
  subst same
  simp only [Node.shape_uncommented]
  cases node.shape with
  | statement => exact engines.chain id
  | expression =>
      refine inStep_bind (engines.expression id) fun given _ same => ?_
      obtain ⟨rfl, visible⟩ := same
      cases given with
      | none => exact inStep_pure (.inl ⟨rfl, rfl⟩)
      | some given =>
          -- a visible text is not empty, so that both roots become a statement
          have nonempty : given.1 ≠ "" := fun empty => by
            have opened := opens_of_solid visible
            rw [empty] at opened
            cases opened
          have block : IsBlock (given.1 ++ ";\n") :=
            isBlock_of_closing (opens_of_solid visible) (by decide)
          refine inStep_pure ?_
          rw [if_neg nonempty, if_neg nonempty, commentsBefore_plain, String.empty_append,
            String.append_assoc]
          exact .inr (block.refl.remark (Graph.isRemark_commentsBefore gen.graph _ id))

theorem rootTexts_inStep (roots : List NodeId) :
    InStep (List.Forall₂ SameBlock) (gen.rootTexts roots) (gen.plain.rootTexts roots) := by
  induction roots with
  | nil => exact inStep_pure .nil
  | cons id rest inductionHypothesis =>
      refine inStep_bind (root_inStep blank handlers id) fun first second same =>
        inStep_bind inductionHypothesis fun more moreOther sameMore => inStep_pure ?_
      rcases same with ⟨rfl, rfl⟩ | same
      · exact sameMore
      · rw [if_neg same.first.ne_empty, if_neg same.second.ne_empty]
        exact .cons same sameMore

end

theorem precheck_plain (roots : List NodeId) : gen.plain.precheck roots = gen.precheck roots := by
  have valid : gen.plain.graph.validate roots = gen.graph.validate roots :=
    gen.graph.validate_uncommented roots
  have checked : gen.plain.table.check gen.plain.graph roots = gen.table.check gen.graph roots :=
    gen.graph.check_uncommented gen.table roots
  rw [precheck, precheck, valid, checked]

theorem allLegal_named (state : PassState) (vars : List (String × String)) :
    (state.named vars).names.AllLegal := by
  let holds : PassState → Prop := fun state => state.names.AllLegal
  have begins : holds state.reset := Names.allLegal_withReserved _
  exact PassState.holds_named begins (fun _ _ _ legal => legal.allocate _ _) vars

/-- What stands before a body are whole lines, the same before every body. -/
theorem exists_lead (declarations : Declarations) :
    ∃ lead : String, EndsLine lead.toList ∧
      ∀ body, declarations.hoistOver body = lead ++ body := by
  unfold Declarations.hoistOver
  split
  next => exact ⟨"", endsLine_nil, fun body => String.empty_append.symm⟩
  next =>
    refine ⟨_, ?_, fun body => rfl⟩
    rw [String.toList_append]
    exact .inr ⟨_, (List.append_assoc _ ['\n', '\n'] ['\n']).symm⟩

/-- The last cleanup keeps the code of blocks. -/
theorem codeLines_finish {first second : String} (same : SameBlocks first second)
    (state : PassState) :
    codeLines (finish state first).toList = codeLines (finish state second).toList := by
  rcases same with ⟨rfl, rfl⟩ | same
  · rfl
  · obtain ⟨lead, ends, hoists⟩ := exists_lead state.declarations
    simp only [finish, String.toList_ofList, hoists, String.toList_append]
    rw [codeLines_tidy ends same.first.opens same.first.closes,
      codeLines_tidy ends same.second.opens same.second.closes, same.codeLines_eq]

theorem generate_inStep (blank : gen.config.IndentsBlank) (handlers : gen.table.InStep)
    (roots : List NodeId) :
    InStep (fun first second => codeLines first.toList = codeLines second.toList)
      (gen.generate roots) (gen.plain.generate roots) := by
  unfold generate
  rw [precheck_plain]
  cases gen.precheck roots with
  | error e => exact inStep_throw e
  | ok =>
      have names : InStep (fun _ _ : PUnit => True) (modify (·.named gen.namedVars))
          (modify (·.named gen.plain.namedVars)) := fun state _ =>
        ⟨trivial, rfl, allLegal_named state gen.namedVars⟩
      have states : InStep (fun first second : PassState => first = second) get get :=
        fun _ legal => ⟨rfl, rfl, legal⟩
      refine inStep_bind names fun _ _ _ =>
        inStep_bind (rootTexts_inStep blank handlers roots) fun texts others same =>
          inStep_bind states fun state _ sameState => ?_
      obtain rfl := sameState
      exact inStep_pure (codeLines_finish (sameBlocks_intercalate same) state)

end Generator

/-- Two generations fail with the same error, or give texts with the same code lines. -/
def SameOutcome : Except PassError String → Except PassError String → Prop
  | .ok text, .ok other => codeLines text.toList = codeLines other.toList
  | .error e, .error other => e = other
  | _, _ => False

theorem SameOutcome.symm {first second : Except PassError String}
    (same : SameOutcome first second) : SameOutcome second first := by
  cases first <;> cases second
  case ok.ok => exact Eq.symm same
  case error.error => exact Eq.symm same
  all_goals exact same

theorem SameOutcome.trans {first second third : Except PassError String}
    (same : SameOutcome first second) (sameNext : SameOutcome second third) :
    SameOutcome first third := by
  cases first <;> cases second <;> cases third
  case ok.ok.ok => exact Eq.trans same sameNext
  case error.error.error => exact Eq.trans same sameNext
  all_goals first | exact same.elim | exact sameNext.elim

theorem Pass.InStep.sameOutcome {first second : Pass String}
    (inStep : Pass.InStep (fun a b => codeLines a.toList = codeLines b.toList) first second)
    {state : PassState} (legal : state.names.AllLegal) :
    SameOutcome (first.outcome state).1 (second.outcome state).1 := by
  have ended := inStep state legal
  revert ended
  rcases first.outcome state with ⟨e | text, after⟩ <;>
    rcases second.outcome state with ⟨other | otherText, otherAfter⟩ <;> intro ended
  · exact ended
  · exact ended
  · exact ended
  · exact ended.1

/-- Without comments and layout, a graph has the same code. -/
theorem sameOutcome_plain (g : Graph) (roots : List NodeId) {config : Config}
    (blank : config.IndentsBlank) :
    SameOutcome (generate g roots config) (generate g.uncommented roots config.plain) := by
  let gen : Generator := ⟨g, .builtin, config⟩
  have inStep : Pass.InStep _ (gen.generate roots) (gen.plain.generate roots) :=
    gen.generate_inStep blank HandlerTable.builtin_inStep roots
  have legal : (PassState.initial config).names.AllLegal := Names.allLegal_withReserved _
  exact inStep.sameOutcome legal

/-- Comments, indentation and the width of comments change neither the code of a graph nor the
error it fails with. -/
theorem generate_ignores_layout {g other : Graph} {config otherConfig : Config}
    (graphs : g.uncommented = other.uncommented) (settings : config.plain = otherConfig.plain)
    (blank : config.IndentsBlank) (otherBlank : otherConfig.IndentsBlank) (roots : List NodeId) :
    SameOutcome (generate g roots config) (generate other roots otherConfig) := by
  have first := sameOutcome_plain g roots blank
  have second := sameOutcome_plain other roots otherBlank
  rw [graphs, settings] at first
  exact first.trans second.symm

/-- A delay in front of an assignment of a commented bit. -/
def delayed (comment : String) : Graph where
  nodes := #[
    { Node.blank "time_block" .statement with
      comment := comment
      values := .ofList [("arg1", some 1)]
      statements := .ofList [("arg2", some 2)] },
    { Node.blank "one" .expression with key := "time" },
    { Node.blank "assign_block" .statement with
      key := "assign", fields := .ofList [("var", .text "y")]
      values := .ofList [("NAME", some 3)] },
    { Node.blank "zero" .expression with key := "bit", comment := comment }]
  vars := [⟨"y", "out"⟩]

theorem delayed_ignores_layout :
    (delayed "reset;\n\nend").uncommented = (delayed "").uncommented ∧
      SameOutcome (generate (delayed "reset;\n\nend") [0] ⟨"\t", 4, none, []⟩)
        (generate (delayed "") [0] .standard) := by
  have graphs : (delayed "reset;\n\nend").uncommented = (delayed "").uncommented := by
    simp [delayed, Graph.uncommented, Node.uncommented]
  have tabs : Config.IndentsBlank ⟨"\t", 4, none, []⟩ := List.all_eq_true.mp rfl
  have spaces : Config.IndentsBlank .standard := List.all_eq_true.mp rfl
  have settings : Config.plain ⟨"\t", 4, none, []⟩ = Config.plain .standard := rfl
  exact ⟨graphs, generate_ignores_layout graphs settings tabs spaces [0]⟩

example : generate (delayed "reset;\n\nend") [0] ⟨"\t", 4, none, []⟩ =
    .ok "// reset;\n//\n// end\n#1\n\t// reset;\n\t//\n\t// end\n\tassign out = 0;\n" := by
  cbv

end BlockVerilog
