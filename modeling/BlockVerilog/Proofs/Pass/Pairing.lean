import BlockVerilog.Proofs.Handlers.Alike
import BlockVerilog.Proofs.Handlers.Pairing
import BlockVerilog.Proofs.Pass.Running

/-!
A pass over paired nodes gives the same text.

The pass over one graph is run beside the pass over another. What runs in the slots of paired nodes
is paired again, so that by induction on the depth of the engines both give the same answers, change
the state alike, and fail with errors that differ at most in what they call a node.
-/

namespace BlockVerilog.Generator

open Relation BlockVerilog.Graph Pass

/-- The same generation from another graph. -/
def onto (gen : Generator) (h : Graph) : Generator := { gen with graph := h }

/-- Two engines say the same about what hangs in the slots of two nodes. -/
structure SlotsAgree (label : String → String) (below other : Engine) (m n : Node) : Prop where
  expression : ∀ slot, AgreeUpTo label (heldExpression below (m.values.target? slot))
    (heldExpression other (n.values.target? slot))
  chain : ∀ slot, AgreeUpTo label (heldChain below (m.statements.target? slot))
    (heldChain other (n.statements.target? slot))

variable {gen : Generator} {h : Graph} {label : String → String} {pair : NodeId → NodeId → Prop}
  {below other : Engine} {a b : NodeId} {m n : Node}

theorem agreeUpTo_of_eq {α : Type} {first second : Pass α} (same : first = second) :
    AgreeUpTo label first second := same ▸ agreeUpTo_refl first

/-- Scripts that ask alike about two nodes run alike if they get the same answers. -/
theorem run_agree {α : Type} {first second : Script α}
    (scripts : Script.Alike label a b first second) (found : gen.graph.get? a = some m)
    (otherFound : (gen.onto h).graph.get? b = some n)
    (slots : SlotsAgree label below other m n) (vars : (gen.onto h).graph.vars = gen.graph.vars) :
    AgreeUpTo label (gen.run below first) ((gen.onto h).run other second) := by
  induction scripts with
  | done result => exact agreeUpTo_refl _
  | fail same => exact agreeUpTo_throw same
  | value slot required _ inductionHypothesis =>
      refine agreeUpTo_bind ?_ inductionHypothesis
      rw [value_eq found, value_eq otherFound]
      exact agreeUpTo_bind (slots.expression slot) fun _ => agreeUpTo_refl _
  | statements slot _ inductionHypothesis =>
      refine agreeUpTo_bind ?_ inductionHypothesis
      rw [statements_eq found, statements_eq otherFound]
      exact agreeUpTo_bind (slots.chain slot) fun _ => agreeUpTo_refl _
  | variableName id _ inductionHypothesis =>
      refine agreeUpTo_bind (agreeUpTo_of_eq ?_) inductionHypothesis
      simp only [Generator.variableName, Graph.variableName?, vars]
  | freshName wanted _ inductionHypothesis =>
      exact agreeUpTo_bind (agreeUpTo_refl _) inductionHypothesis
  | define key text _ inductionHypothesis =>
      exact agreeUpTo_bind (agreeUpTo_refl _) inductionHypothesis

section

variable (same : m.Resembles label gen.graph (gen.onto h).graph pair n)
include same

theorem unsupported_agree {α : Type} :
    AgreeUpTo label (throw (unsupported m) : Pass α) (throw (unsupported n)) := by
  apply agreeUpTo_throw
  simp only [unsupported, PassError.relabel, same.key, same.kind]

theorem mismatch_agree {α : Type} (registered : Shape) :
    AgreeUpTo label (throw (mismatch m registered) : Pass α) (throw (mismatch n registered)) := by
  apply agreeUpTo_throw
  simp only [mismatch, PassError.relabel, same.key, same.kind, same.shape]

/-- Handlers see the same of two nodes that resemble each other. -/
theorem site_alike (found : gen.graph.get? a = some m)
    (otherFound : (gen.onto h).graph.get? b = some n) :
    Site.Alike label (gen.site a m) ((gen.onto h).site b n) where
  config := rfl
  fields := same.fields
  values := same.valueKeys
  statements := same.statementKeys
  key := by
    change label (gen.graph.keyOf a) = label ((gen.onto h).graph.keyOf b)
    rw [keyOf, keyOf, found, otherFound]
    exact same.key

variable (treats : gen.table.TreatsAlike) (vars : (gen.onto h).graph.vars = gen.graph.vars)
  (found : gen.graph.get? a = some m) (otherFound : (gen.onto h).graph.get? b = some n)
  (slots : SlotsAgree label below other m n)
include treats vars found otherFound slots

theorem expressionAt_agree :
    AgreeUpTo label (gen.expressionAt below a) ((gen.onto h).expressionAt other b) := by
  have site := site_alike same found otherFound
  have otherTable : (gen.onto h).table = gen.table := rfl
  unfold expressionAt
  rw [node_eq_pure found, node_eq_pure otherFound, pure_bind, pure_bind,
    if_pos same.enabled.1, if_pos same.enabled.2, same.kind, otherTable]
  cases registered : gen.table.get? m.kind with
  | none => exact unsupported_agree same
  | some handler =>
      have alike := treats _ _ registered label _ _ site
      cases handler with
      | expression generate =>
          exact agreeUpTo_bind (run_agree alike found otherFound slots vars)
            fun _ => agreeUpTo_refl _
      | statement generate => exact mismatch_agree same .statement

theorem statementAt_agree :
    AgreeUpTo label (gen.statementAt below a) ((gen.onto h).statementAt other b) := by
  have site := site_alike same found otherFound
  have otherTable : (gen.onto h).table = gen.table := rfl
  unfold statementAt
  rw [node_eq_pure found, node_eq_pure otherFound, pure_bind, pure_bind, same.kind, otherTable]
  cases registered : gen.table.get? m.kind with
  | none => exact unsupported_agree same
  | some handler =>
      have alike := treats _ _ registered label _ _ site
      cases handler with
      | expression generate => exact mismatch_agree same .expression
      | statement generate => exact run_agree alike found otherFound slots vars

end

/-- Two engines give the same text of two nodes, as expressions and as statements. -/
structure NodesAgree (label : String → String) (gen : Generator) (h : Graph) (below other : Engine)
    (a b : NodeId) : Prop where
  expression : AgreeUpTo label (gen.expressionAt below a) ((gen.onto h).expressionAt other b)
  statement : AgreeUpTo label (gen.commented below a) ((gen.onto h).commented other b)
  comments : (gen.onto h).commentsBefore b = gen.commentsBefore a

section

variable {ids others : List NodeId} (lists : List.Forall₂ pair ids others)
  (each : ∀ a ∈ ids, ∀ b ∈ others, pair a b → NodesAgree label gen h below other a b)
include lists each

theorem commentedAll_agree :
    AgreeUpTo label (gen.commentedAll below ids) ((gen.onto h).commentedAll other others) := by
  induction lists with
  | nil => exact agreeUpTo_refl _
  | cons here later inductionHypothesis =>
      refine agreeUpTo_bind (each _ List.mem_cons_self _ List.mem_cons_self here).statement
        fun first => agreeUpTo_bind ?_ fun _ => agreeUpTo_refl _
      exact inductionHypothesis fun a listed b otherListed =>
        each a (List.mem_cons_of_mem _ listed) b (List.mem_cons_of_mem _ otherListed)

theorem runningExpression_agree : AgreeUpTo label (gen.runningExpression below ids)
    ((gen.onto h).runningExpression other others) := by
  cases lists with
  | nil => exact agreeUpTo_refl _
  | cons here later => exact (each _ List.mem_cons_self _ List.mem_cons_self here).expression

theorem runningRoot_agree :
    AgreeUpTo label (gen.runningRoot below ids) ((gen.onto h).runningRoot other others) := by
  cases lists with
  | nil => exact agreeUpTo_refl _
  | cons here later =>
      have agree := each _ List.mem_cons_self _ List.mem_cons_self here
      refine agreeUpTo_bind agree.expression fun given => agreeUpTo_of_eq ?_
      cases given with
      | none => rfl
      | some given => simp only [asStatement, agree.comments]

end

/-- Engines with these depths left give the same text of paired nodes that are followed so far. -/
def PairsAgree (label : String → String) (gen : Generator) (h : Graph)
    (pair : NodeId → NodeId → Prop) (depth otherDepth : Nat) : Prop :=
  ∀ a b, pair a b → gen.graph.Suffices (depth, a) → (gen.onto h).graph.Suffices (otherDepth, b) →
    NodesAgree label gen h (gen.engine (depth - 1)) ((gen.onto h).engine (otherDepth - 1)) a b

section

variable {roots others : List NodeId} (formed : gen.graph.WellFormed roots)
  (otherFormed : (gen.onto h).graph.WellFormed others)
include formed otherFormed

section

variable {depth otherDepth : Nat} (agree : PairsAgree label gen h pair depth otherDepth)
  {held otherHeld : Option NodeId} (enough : ∀ id ∈ held, gen.graph.Suffices (depth, id))
  (otherEnough : ∀ id ∈ otherHeld, (gen.onto h).graph.Suffices (otherDepth, id))
include agree enough otherEnough

theorem running_agree : ∀ a ∈ gen.graph.running held, ∀ b ∈ (gen.onto h).graph.running otherHeld,
    pair a b → NodesAgree label gen h (gen.engine (depth - 1))
      ((gen.onto h).engine (otherDepth - 1)) a b :=
  fun a member b otherMember paired => agree a b paired
    (Suffices.of_running formed.closed enough member)
    (Suffices.of_running otherFormed.closed otherEnough otherMember)

variable (runs : List.Forall₂ pair (gen.graph.running held) ((gen.onto h).graph.running otherHeld))
include runs

theorem heldChain_agree : AgreeUpTo label (heldChain (gen.engine depth) held)
    (heldChain ((gen.onto h).engine otherDepth) otherHeld) := by
  rw [heldChain_engine formed.closed formed.acyclic enough,
    heldChain_engine otherFormed.closed otherFormed.acyclic otherEnough]
  exact commentedAll_agree runs (running_agree formed otherFormed agree enough otherEnough)

theorem heldExpression_agree (last : ∀ id ∈ held, gen.graph.following id = none)
    (otherLast : ∀ id ∈ otherHeld, (gen.onto h).graph.following id = none) :
    AgreeUpTo label (heldExpression (gen.engine depth) held)
      (heldExpression ((gen.onto h).engine otherDepth) otherHeld) := by
  rw [heldExpression_engine formed.closed formed.acyclic enough last,
    heldExpression_engine otherFormed.closed otherFormed.acyclic otherEnough otherLast]
  exact runningExpression_agree runs (running_agree formed otherFormed agree enough otherEnough)

end

theorem slotsAgree {depth otherDepth : Nat} (agree : PairsAgree label gen h pair depth otherDepth)
    (same : m.Resembles label gen.graph (gen.onto h).graph pair n)
    (found : gen.graph.get? a = some m) (otherFound : (gen.onto h).graph.get? b = some n)
    (enough : gen.graph.Suffices (depth + 1, a))
    (otherEnough : (gen.onto h).graph.Suffices (otherDepth + 1, b)) :
    SlotsAgree label (gen.engine depth) ((gen.onto h).engine otherDepth) m n := by
  constructor
  · intro slot
    apply heldExpression_agree formed otherFormed agree _ _ (same.values slot)
    · exact fun child holds => formed.following_of_value found holds
    · exact fun child holds => otherFormed.following_of_value otherFound holds
    · exact fun child holds => enough.of_links formed.closed formed.acyclic
        (links_of_value found holds)
    · exact fun child holds => otherEnough.of_links otherFormed.closed otherFormed.acyclic
        (links_of_value otherFound holds)
  · intro slot
    apply heldChain_agree formed otherFormed agree _ _ (same.statements slot)
    · exact fun head holds => enough.of_links formed.closed formed.acyclic
        (links_of_statement found holds)
    · exact fun head holds => otherEnough.of_links otherFormed.closed otherFormed.acyclic
        (links_of_statement otherFound holds)

variable (treats : gen.table.TreatsAlike)
  (pairing : Pairing label gen.graph (gen.onto h).graph gen.config.commentWrap pair)
include treats pairing

theorem pairs_agree (depth otherDepth : Nat) :
    PairsAgree label gen h pair depth otherDepth := by
  -- on the depth of one engine; the other goes down with it, from whatever depth it has
  induction depth generalizing otherDepth with
  | zero => exact fun a b _ enough => absurd enough.pos (Nat.lt_irrefl 0)
  | succ depth inductionHypothesis =>
      cases otherDepth with
      | zero => exact fun a b _ _ enough => absurd enough.pos (Nat.lt_irrefl 0)
      | succ otherDepth =>
          intro a b paired enough otherEnough
          obtain ⟨m, n, found, otherFound, same⟩ := pairing.nodes a b paired
          have slots := slotsAgree formed otherFormed (inductionHypothesis otherDepth) same found
            otherFound enough otherEnough
          rw [Nat.add_sub_cancel, Nat.add_sub_cancel]
          have comments : (gen.onto h).commentsBefore b = gen.commentsBefore a :=
            congrArg String.ofList (pairing.comments a b paired).symm
          refine ⟨expressionAt_agree same treats pairing.vars found otherFound slots, ?_, comments⟩
          rw [commented_of_enabled found same.enabled.1,
            commented_of_enabled otherFound same.enabled.2, comments]
          exact agreeUpTo_bind (statementAt_agree same treats pairing.vars found otherFound slots)
            fun _ => agreeUpTo_refl _

theorem root_agree {root other : NodeId}
    (pairedRoots : RootPair gen.graph (gen.onto h).graph pair root other) :
    AgreeUpTo label (gen.root root) ((gen.onto h).root other) := by
  have agree := pairs_agree formed otherFormed treats pairing gen.graph.size (gen.onto h).graph.size
  obtain ⟨m, n, found, otherFound, shape⟩ := pairedRoots.nodes
  have enough : ∀ id ∈ some root, gen.graph.Suffices (gen.graph.size, id) := by
    simpa using ⟨lt_size_of_get?_eq_some found, extent_le_size root⟩
  have otherEnough : ∀ id ∈ some other,
      (gen.onto h).graph.Suffices ((gen.onto h).graph.size, id) := by
    simpa using ⟨lt_size_of_get?_eq_some otherFound, extent_le_size other⟩
  have runs := pairedRoots.runs
  cases isShape : m.shape with
  | statement =>
      rw [root_of_statement found isShape, root_of_statement otherFound (shape.trans isShape)]
      exact heldChain_agree formed otherFormed agree enough otherEnough runs
  | expression =>
      have otherShape := shape.trans isShape
      rw [root_of_expression formed.closed formed.acyclic found isShape
          (formed.following_eq_none found isShape),
        root_of_expression otherFormed.closed otherFormed.acyclic otherFound otherShape
          (otherFormed.following_eq_none otherFound otherShape)]
      exact runningRoot_agree runs (running_agree formed otherFormed agree enough otherEnough)

theorem rootTexts_agree {ids otherIds : List NodeId}
    (begun : List.Forall₂ (RootPair gen.graph (gen.onto h).graph pair) ids otherIds) :
    AgreeUpTo label (gen.rootTexts ids) ((gen.onto h).rootTexts otherIds) := by
  induction begun with
  | nil => exact agreeUpTo_refl _
  | cons here later inductionHypothesis =>
      exact agreeUpTo_bind (root_agree formed otherFormed treats pairing here) fun first =>
        agreeUpTo_bind inductionHypothesis fun more => agreeUpTo_refl _

/-- Passes over roots in which paired nodes run end alike. -/
theorem generate_agree
    (begun : List.Forall₂ (RootPair gen.graph (gen.onto h).graph pair) roots others) :
    AgreeUpTo label (gen.generate roots) ((gen.onto h).generate others) := by
  have checked := HandlerTable.check_paired gen.table pairing formed otherFormed begun
  have otherTable : (gen.onto h).table = gen.table := rfl
  unfold Generator.generate
  rw [precheck_of_wellFormed formed, precheck_of_wellFormed otherFormed, otherTable]
  have names : gen.namedVars = (gen.onto h).namedVars := by
    rw [namedVars, namedVars, pairing.vars]
  revert checked
  rcases gen.table.check gen.graph roots with e | _ <;>
    rcases gen.table.check (gen.onto h).graph others with other | _ <;> intro checked
  · exact agreeUpTo_throw (Except.error.inj checked)
  · cases checked
  · cases checked
  · dsimp only
    rw [names]
    exact agreeUpTo_bind (agreeUpTo_refl _) fun _ =>
      agreeUpTo_bind (rootTexts_agree formed otherFormed treats pairing begun) fun texts =>
        agreeUpTo_refl _

end

end BlockVerilog.Generator

namespace BlockVerilog

open BlockVerilog.Graph

/-- With the built-in handlers, two graphs in whose roots paired nodes run have the same text, or
fail with the same error but for what it calls a node. -/
theorem generate_paired {g h : Graph} {roots others : List NodeId} {label : String → String}
    {pair : NodeId → NodeId → Prop} {config : Config} (formed : g.WellFormed roots)
    (otherFormed : h.WellFormed others) (pairing : Pairing label g h config.commentWrap pair)
    (begun : List.Forall₂ (RootPair g h pair) roots others) :
    (generate g roots config).mapError (PassError.relabel label) =
      (generate h others config).mapError (PassError.relabel label) := by
  let gen : Generator := ⟨g, .builtin, config⟩
  have agree : Pass.AgreeUpTo label (gen.generate roots) ((gen.onto h).generate others) :=
    Generator.generate_agree formed otherFormed HandlerTable.builtin_treatsAlike pairing begun
  exact (agree (.initial config)).1

end BlockVerilog
