import BlockVerilog.Proofs.Graph.Moved
import BlockVerilog.Proofs.Handlers.ReadOnly
import BlockVerilog.Proofs.Pass.Layout
import BlockVerilog.Proofs.Text.Tidied

/-!
Parts of a pass that leave its state as it is.

When the variables of the workspace have their names, reading a name changes nothing. Where the
handlers do no more than that, no text depends on what was generated before it.
-/

namespace BlockVerilog

open Text

namespace Pass

variable {α β : Type} {state : PassState} {post : α → Prop}

/-- From a state, a computation gives a result with `post` and leaves the state, or it fails. -/
def Rests (state : PassState) (post : α → Prop) (c : Pass α) : Prop :=
  c.Ends state (fun a after => after = state ∧ post a) fun _ _ => True

theorem rests_pure {a : α} (holds : post a) : Rests state post (pure a) := ⟨rfl, holds⟩

theorem rests_throw (e : PassError) : Rests state post (throw e) := trivial

theorem rests_bind {postNext : β → Prop} {c : Pass α} {f : α → Pass β} (first : c.Rests state post)
    (next : ∀ a, post a → (f a).Rests state postNext) : (c >>= f).Rests state postNext := by
  apply ends_bind.mpr
  apply first.mono
  · rintro a _ ⟨rfl, holds⟩
    exact next a holds
  · exact fun _ _ failed => failed

theorem Rests.ok_or_error {c : Pass α} (rests : c.Rests state post) :
    (∃ a, c.outcome state = (.ok a, state) ∧ post a) ∨
      ∃ e after, c.outcome state = (.error e, after) := by
  revert rests
  unfold Rests Ends
  rcases c.outcome state with ⟨e | a, after⟩
  · exact fun _ => .inr ⟨e, after, rfl⟩
  · rintro ⟨rfl, holds⟩
    exact .inl ⟨a, rfl, holds⟩

end Pass

/-- A variable of the workspace has this id. -/
def Graph.HasVariable (g : Graph) (id : String) : Prop := ∃ v ∈ g.vars, v.id = id

/-- Names are legal, and all of these variables have theirs. -/
structure PassState.IsSettled (state : PassState) (known : String → Prop) : Prop where
  legal : state.names.AllLegal
  named : ∀ id, known id → ∃ name, state.names.lookup (.variable, id) = some name

/-- A name that was given is given again, and nothing changes. -/
theorem PassState.nameVariable_of_lookup {state : PassState} {id name : String}
    (given : state.names.lookup (.variable, id) = some name) (requested : String) :
    state.nameVariable id requested = (name, state) := by
  unfold nameVariable Names.allocate
  rw [given]

namespace Generator

open Pass

theorem isSettled_named (gen : Generator) (state : PassState) :
    (state.named gen.namedVars).IsSettled gen.graph.HasVariable where
  legal := allLegal_named state gen.namedVars
  named := by
    rintro _ ⟨v, listed, rfl⟩
    exact state.exists_lookup_named (List.mem_map_of_mem listed)

/-- The handlers of a generator reach other nodes only through slots, make blocks, and at the nodes
that are reached from the roots only read what is known. -/
structure OnlyReads (gen : Generator) (roots : List NodeId) : Prop where
  isLocal : gen.table.IsLocal
  makes : ∀ kind handler, gen.table.get? kind = some handler → handler.MakesBlocks
  readOnly : ∀ id node handler, gen.graph.IsReached roots id → gen.graph.get? id = some node →
    gen.table.get? node.kind = some handler →
      handler.IsReadOnly gen.graph.HasVariable (gen.site id node)

/-- The answers of an engine about nodes that are reached from the roots leave the state. -/
structure EngineRests (gen : Generator) (roots : List NodeId) (state : PassState)
    (below : Engine) : Prop where
  expression : ∀ id, gen.graph.IsReached roots id →
    (below.expression id).Rests state fun given => given.all (fun e => solid e.1) = true
  chain : ∀ id, gen.graph.IsReached roots id → (below.chain id).Rests state IsBlocks

variable {gen : Generator} {roots : List NodeId} {state : PassState}

theorem node_rests (id : NodeId) :
    (gen.node id).Rests state fun node => gen.graph.get? id = some node := by
  unfold Generator.node
  split
  next node found => exact rests_pure found
  next => exact rests_throw _

theorem isBlock_commented {id : NodeId} {text : String} (block : IsBlock text) :
    IsBlock (gen.commentsBefore id ++ text) :=
  (block.refl.remark (gen.graph.isRemark_commentsBefore _ id)).first

section

variable {below : Engine} {id : NodeId} (reached : gen.graph.IsReached roots id)
include reached

theorem value_rests (rests : gen.EngineRests roots state below) (slot : String)
    (required : Precedence) :
    (gen.value below id slot required).Rests state fun text => text.all solid = true := by
  apply rests_bind (node_rests id)
  intro node found
  cases held : node.values.target? slot with
  | none => exact rests_pure rfl
  | some child =>
      have link : gen.graph.LinksValue id child := ⟨node, found, Slots.mem_targets_of_target? held⟩
      apply rests_bind (rests.expression child (reached.of_links link.links))
      intro given visible
      cases given with
      | none => exact rests_pure rfl
      | some given =>
          apply rests_pure
          split
          · rfl
          · exact solid_parenthesize visible _ _

theorem statements_rests (rests : gen.EngineRests roots state below) (slot : String) :
    (gen.statements below id slot).Rests state IsBody := by
  apply rests_bind (node_rests id)
  intro node found
  cases held : node.statements.target? slot with
  | none => exact rests_pure (.inl rfl)
  | some head =>
      have link : gen.graph.LinksStatement id head :=
        ⟨node, found, Slots.mem_targets_of_target? held⟩
      apply rests_bind (rests.chain head (reached.of_links link.links))
      intro text blocks
      exact rests_pure (blocks.isBody.indentLines _)

omit reached in
theorem variableName_rests (settled : state.IsSettled gen.graph.HasVariable) {name : String}
    (known : gen.graph.HasVariable name) :
    (gen.variableName name).Rests state fun text => solid text = true := by
  obtain ⟨given, named⟩ := settled.named name known
  have same := PassState.nameVariable_of_lookup named ((gen.graph.variableName? name).getD name)
  change ((state.nameVariable name _).2 = state ∧ solid (state.nameVariable name _).1 = true)
  rw [same]
  exact ⟨rfl, solid_of_isLegal (settled.legal _ _ named)⟩

/-- A script that only reads leaves the state. -/
theorem run_rests (rests : gen.EngineRests roots state below)
    (settled : state.IsSettled gen.graph.HasVariable) {α : Type} {post : α → Prop}
    {script : Script α} (isLocal : script.IsLocal id)
    (readOnly : script.IsReadOnly gen.graph.HasVariable) (makes : script.Makes post) :
    (gen.run below script).Rests state post := by
  induction script with
  | done a => exact rests_pure makes
  | fail e => exact rests_throw e
  | value other slot required next inductionHypothesis =>
      obtain ⟨rfl, localNext⟩ := isLocal
      apply rests_bind (value_rests reached rests slot required)
      intro text visible
      exact inductionHypothesis text (localNext text) (readOnly text) (makes text visible)
  | statements other slot next inductionHypothesis =>
      obtain ⟨rfl, localNext⟩ := isLocal
      apply rests_bind (statements_rests reached rests slot)
      intro body whole
      exact inductionHypothesis body (localNext body) (readOnly body) (makes body whole)
  | variableName variableId next inductionHypothesis =>
      apply rests_bind (variableName_rests settled readOnly.1)
      intro name visible
      exact inductionHypothesis name (isLocal name) (readOnly.2 name) (makes name visible)
  | freshName wanted next => exact readOnly.elim
  | define key text next => exact readOnly.elim

variable (reads : gen.OnlyReads roots) (settled : state.IsSettled gen.graph.HasVariable)
include reads settled

theorem expressionAt_rests (rests : gen.EngineRests roots state below) :
    (gen.expressionAt below id).Rests state fun given =>
      given.all (fun e => solid e.1) = true := by
  apply rests_bind (node_rests id)
  intro node found
  by_cases enabled : node.enabled = true
  · rw [if_pos enabled]
    cases registered : gen.table.get? node.kind with
    | none => exact rests_throw _
    | some handler =>
        have isLocal := reads.isLocal _ _ registered
        have readOnly := reads.readOnly id node handler reached found registered
        have makes := reads.makes _ _ registered
        cases handler with
        | statement => exact rests_throw _
        | expression generate =>
            apply rests_bind (run_rests reached rests settled (isLocal (gen.site id node)) readOnly
              (makes _))
            intro given visible
            exact rests_pure visible
  · rw [if_neg enabled]
    exact rests_pure rfl

theorem statementAt_rests (rests : gen.EngineRests roots state below) :
    (gen.statementAt below id).Rests state IsBlock := by
  apply rests_bind (node_rests id)
  intro node found
  cases registered : gen.table.get? node.kind with
  | none => exact rests_throw _
  | some handler =>
      have isLocal := reads.isLocal _ _ registered
      have readOnly := reads.readOnly id node handler reached found registered
      have makes := reads.makes _ _ registered
      cases handler with
      | expression => exact rests_throw _
      | statement generate =>
          exact run_rests reached rests settled (isLocal (gen.site id node)) readOnly (makes _)

theorem commented_rests (rests : gen.EngineRests roots state below) :
    (gen.commented below id).Rests state IsBlocks := by
  apply rests_bind (node_rests id)
  intro node _
  by_cases enabled : node.enabled = true
  · rw [if_pos enabled]
    apply rests_bind (statementAt_rests reached reads settled rests)
    intro text block
    exact rests_pure (.inr (isBlock_commented block))
  · rw [if_neg enabled]
    exact rests_pure (.inl rfl)

omit reached in
theorem commentedAll_rests (rests : gen.EngineRests roots state below) {ids : List NodeId}
    (all : ∀ id ∈ ids, gen.graph.IsReached roots id) :
    (gen.commentedAll below ids).Rests state IsBlocks := by
  induction ids with
  | nil => exact rests_pure (.inl rfl)
  | cons id rest inductionHypothesis =>
      rw [List.forall_mem_cons] at all
      apply rests_bind (commented_rests all.1 reads settled rests)
      intro first blocks
      apply rests_bind (inductionHypothesis all.2)
      intro more moreBlocks
      exact rests_pure (blocks.append moreBlocks)

theorem chainAt_rests (rests : gen.EngineRests roots state below) :
    (gen.chainAt below id).Rests state IsBlocks := by
  have all : ∀ other ∈ (gen.graph.chain id).1, gen.graph.IsReached roots other := by
    intro other member
    obtain ⟨root, listed, path⟩ := reached
    exact ⟨root, listed, path.trans (Graph.reaches_of_follows (Graph.reaches_of_mem_chain member))⟩
  apply rests_bind (commentedAll_rests reads settled rests all)
  intro text blocks
  split
  · exact rests_pure blocks
  · exact rests_throw _

end

section

variable (reads : gen.OnlyReads roots) (settled : state.IsSettled gen.graph.HasVariable)
include reads settled

theorem engine_rests (depth : Nat) : gen.EngineRests roots state (gen.engine depth) := by
  induction depth with
  | zero => exact ⟨fun _ _ => rests_throw _, fun _ _ => rests_throw _⟩
  | succ depth inductionHypothesis =>
      rw [engine_succ]
      exact ⟨fun _ reached => expressionAt_rests reached reads settled inductionHypothesis,
        fun _ reached => chainAt_rests reached reads settled inductionHypothesis⟩

theorem root_rests {root : NodeId} (reached : gen.graph.IsReached roots root) :
    (gen.root root).Rests state IsBlocks := by
  have rests := engine_rests reads settled gen.graph.size
  apply rests_bind (node_rests root)
  intro node _
  cases node.shape with
  | statement => exact rests.chain root reached
  | expression =>
      apply rests_bind (rests.expression root reached)
      intro given visible
      cases given with
      | none => exact rests_pure (.inl rfl)
      | some given =>
          apply rests_pure
          split
          · exact .inl rfl
          · have block : IsBlock (given.1 ++ ";\n") :=
              isBlock_of_closing (opens_of_solid visible) (by decide)
            rw [String.append_assoc]
            exact .inr (isBlock_commented block)

end

end Generator

end BlockVerilog
