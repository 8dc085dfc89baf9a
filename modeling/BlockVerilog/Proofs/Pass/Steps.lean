import Mathlib.Logic.Relation
import BlockVerilog.Proofs.Names.State
import BlockVerilog.Proofs.Pass.Outcome

/-!
Everything a pass does to its state, it does in steps of three kinds.

A step names a variable, makes up a helper name or declares a text. What each of them keeps is
therefore kept by every computation of a pass, by one that fails as well, whatever its handlers ask
for.
-/

namespace BlockVerilog

@[simp] theorem Names.reserved_allocate (names : Names) (identity : Identity)
    (requested : String) : (names.allocate identity requested).2.reserved = names.reserved := by
  unfold Names.allocate
  cases names.lookup identity with
  | some name => rfl
  | none => rfl

namespace PassState

/-- One change of the state of a pass. -/
inductive Step : PassState → PassState → Prop
  | nameVariable (state : PassState) (id requested : String) :
      Step state (state.nameVariable id requested).2
  | nameHelper (state : PassState) (wanted : String) : Step state (state.nameHelper wanted).2
  | declare (state : PassState) (key text : String) : Step state (state.declare key text).2

/-- Steps lead from one state to another. -/
def LeadsTo (state later : PassState) : Prop := Relation.ReflTransGen Step state later

variable {first second third state later : PassState}

theorem LeadsTo.refl (state : PassState) : state.LeadsTo state := Relation.ReflTransGen.refl

theorem LeadsTo.trans (leads : first.LeadsTo second) (leadsOn : second.LeadsTo third) :
    first.LeadsTo third := Relation.ReflTransGen.trans leads leadsOn

theorem Step.leadsTo (step : Step state later) : state.LeadsTo later :=
  Relation.ReflTransGen.single step

/-- What holds of a state, and still holds after each step, holds of every state that steps lead
to. -/
theorem LeadsTo.holds {holds : PassState → Prop} (leads : state.LeadsTo later)
    (begins : holds state) (goesOn : ∀ before after, Step before after → holds before →
      holds after) : holds later := by
  induction leads with
  | refl => exact begins
  | tail _ step inductionHypothesis => exact goesOn _ _ step inductionHypothesis

theorem Step.keeps (step : Step state later) : state.Keeps later := by
  cases step with
  | nameVariable id requested => exact keeps_nameVariable state id requested
  | nameHelper wanted => exact fun _ _ given => Names.lookup_allocate_of_lookup given
  | declare key text => exact Keeps.refl state

theorem LeadsTo.keeps (leads : state.LeadsTo later) : state.Keeps later :=
  leads.holds (Keeps.refl state) fun _ _ step kept => kept.trans step.keeps

theorem Step.isReached (step : Step state later) (reached : state.IsReached) :
    later.IsReached := by
  cases step with
  | nameVariable id requested => exact reached.nameVariable id requested
  | nameHelper wanted => exact reached.nameHelper wanted
  | declare key text => exact reached.declare key text

theorem LeadsTo.isReached (leads : state.LeadsTo later) (reached : state.IsReached) :
    later.IsReached :=
  leads.holds reached fun _ _ step => step.isReached

theorem Step.reserved (step : Step state later) : later.names.reserved = state.names.reserved := by
  cases step with
  | nameVariable id requested => exact Names.reserved_allocate state.names _ _
  | nameHelper wanted => exact Names.reserved_allocate state.names _ _
  | declare key text => rfl

theorem LeadsTo.reserved (leads : state.LeadsTo later) :
    later.names.reserved = state.names.reserved := by
  induction leads with
  | refl => rfl
  | tail _ step inductionHypothesis => exact step.reserved.trans inductionHypothesis

/-- When a pass begins, the names of its variables are what was done since the reset. -/
theorem leadsTo_named (state : PassState) (vars : List (String × String)) :
    state.reset.LeadsTo (state.named vars) :=
  holds_named (LeadsTo.refl state.reset)
    (fun later id requested leads => leads.trans (Step.nameVariable later id requested).leadsTo)
    vars

theorem reserved_named (state : PassState) (vars : List (String × String)) :
    (state.named vars).names.reserved = state.names.reserved :=
  (state.leadsTo_named vars).reserved

theorem declarations_named (state : PassState) (vars : List (String × String)) :
    (state.named vars).declarations = ∅ := by
  let holds : PassState → Prop := fun later => later.declarations = ∅
  have begins : holds state.reset := rfl
  exact holds_named begins (fun _ _ _ none => none) vars

theorem IsReached.named {state : PassState} (reached : state.IsReached)
    (vars : List (String × String)) : (state.named vars).IsReached :=
  (state.leadsTo_named vars).isReached reached.reset

end PassState

namespace Pass

variable {α β : Type}

/-- A computation changes the state in steps only, also where it fails. -/
def GoesBySteps (c : Pass α) : Prop := ∀ state : PassState, state.LeadsTo (c.outcome state).2

theorem goesBySteps_pure (a : α) : GoesBySteps (pure a) := PassState.LeadsTo.refl

theorem goesBySteps_throw (e : PassError) : GoesBySteps (throw e : Pass α) :=
  PassState.LeadsTo.refl

theorem goesBySteps_bind {c : Pass α} {f : α → Pass β} (first : c.GoesBySteps)
    (second : ∀ a, (f a).GoesBySteps) : (c >>= f).GoesBySteps := by
  intro state
  have leads := first state
  rw [outcome_bind]
  rcases ended : c.outcome state with ⟨e | a, after⟩
  · rwa [ended] at leads
  · rw [ended] at leads
    exact leads.trans (second a after)

theorem goesBySteps_get : GoesBySteps (get : Pass PassState) := PassState.LeadsTo.refl

end Pass

namespace Generator

open Pass PassState

variable (gen : Generator)

theorem goesBySteps_node (id : NodeId) : (gen.node id).GoesBySteps := by
  unfold Generator.node
  split
  next => exact goesBySteps_pure _
  next => exact goesBySteps_throw _

theorem goesBySteps_variableName (id : String) : (gen.variableName id).GoesBySteps :=
  fun state => (Step.nameVariable state id _).leadsTo

theorem goesBySteps_freshName (wanted : String) : (freshName wanted).GoesBySteps :=
  fun state => (Step.nameHelper state wanted).leadsTo

theorem goesBySteps_define (key text : String) : (define key text).GoesBySteps :=
  fun state => (Step.declare state key text).leadsTo

/-- The answers of an engine change the state in steps only. -/
structure EngineGoesBySteps (below : Engine) : Prop where
  expression : ∀ id, (below.expression id).GoesBySteps
  chain : ∀ id, (below.chain id).GoesBySteps

section

variable {gen} {below : Engine} (goes : EngineGoesBySteps below)
include goes

theorem goesBySteps_value (id : NodeId) (slot : String) (required : Precedence) :
    (gen.value below id slot required).GoesBySteps := by
  unfold Generator.value
  refine goesBySteps_bind (goesBySteps_node gen id) fun node => ?_
  cases node.values.target? slot with
  | none => exact goesBySteps_pure _
  | some child =>
      refine goesBySteps_bind (goes.expression child) fun given => ?_
      cases given <;> exact goesBySteps_pure _

theorem goesBySteps_statements (id : NodeId) (slot : String) :
    (gen.statements below id slot).GoesBySteps := by
  unfold Generator.statements
  refine goesBySteps_bind (goesBySteps_node gen id) fun node => ?_
  cases node.statements.target? slot with
  | none => exact goesBySteps_pure _
  | some head => exact goesBySteps_bind (goes.chain head) fun _ => goesBySteps_pure _

theorem goesBySteps_run {α : Type} (script : Script α) :
    (gen.run below script).GoesBySteps := by
  induction script with
  | done a => exact goesBySteps_pure a
  | fail e => exact goesBySteps_throw e
  | value id slot required next inductionHypothesis =>
      exact goesBySteps_bind (goesBySteps_value goes id slot required) inductionHypothesis
  | statements id slot next inductionHypothesis =>
      exact goesBySteps_bind (goesBySteps_statements goes id slot) inductionHypothesis
  | variableName id next inductionHypothesis =>
      exact goesBySteps_bind (goesBySteps_variableName gen id) inductionHypothesis
  | freshName wanted next inductionHypothesis =>
      exact goesBySteps_bind (goesBySteps_freshName wanted) inductionHypothesis
  | define key text next inductionHypothesis =>
      exact goesBySteps_bind (goesBySteps_define key text) inductionHypothesis

theorem goesBySteps_expressionAt (id : NodeId) : (gen.expressionAt below id).GoesBySteps := by
  unfold expressionAt
  refine goesBySteps_bind (goesBySteps_node gen id) fun node => ?_
  split
  next =>
    split
    next => exact goesBySteps_bind (goesBySteps_run goes _) fun _ => goesBySteps_pure _
    next => exact goesBySteps_throw _
    next => exact goesBySteps_throw _
  next => exact goesBySteps_pure _

theorem goesBySteps_statementAt (id : NodeId) : (gen.statementAt below id).GoesBySteps := by
  unfold statementAt
  refine goesBySteps_bind (goesBySteps_node gen id) fun node => ?_
  split
  next => exact goesBySteps_run goes _
  next => exact goesBySteps_throw _
  next => exact goesBySteps_throw _

theorem goesBySteps_commented (id : NodeId) : (gen.commented below id).GoesBySteps := by
  unfold commented
  refine goesBySteps_bind (goesBySteps_node gen id) fun node => ?_
  split
  next => exact goesBySteps_bind (goesBySteps_statementAt goes id) fun _ => goesBySteps_pure _
  next => exact goesBySteps_pure _

theorem goesBySteps_commentedAll (ids : List NodeId) :
    (gen.commentedAll below ids).GoesBySteps := by
  induction ids with
  | nil => exact goesBySteps_pure _
  | cons id rest inductionHypothesis =>
      exact goesBySteps_bind (goesBySteps_commented goes id) fun _ =>
        goesBySteps_bind inductionHypothesis fun _ => goesBySteps_pure _

theorem goesBySteps_chainAt (head : NodeId) : (gen.chainAt below head).GoesBySteps := by
  unfold chainAt
  refine goesBySteps_bind (goesBySteps_commentedAll goes _) fun text => ?_
  split
  next => exact goesBySteps_pure _
  next => exact goesBySteps_throw _

end

theorem engineGoesBySteps_engine (depth : Nat) : EngineGoesBySteps (gen.engine depth) := by
  induction depth with
  | zero => exact ⟨fun _ => goesBySteps_throw _, fun _ => goesBySteps_throw _⟩
  | succ depth inductionHypothesis =>
      rw [engine_succ]
      exact ⟨goesBySteps_expressionAt inductionHypothesis,
        goesBySteps_chainAt inductionHypothesis⟩

theorem engineGoesBySteps_whole : EngineGoesBySteps gen.whole :=
  engineGoesBySteps_engine gen _

theorem goesBySteps_root (id : NodeId) : (gen.root id).GoesBySteps := by
  have goes := engineGoesBySteps_whole gen
  unfold root
  refine goesBySteps_bind (goesBySteps_node gen id) fun node => ?_
  cases node.shape with
  | statement => exact goes.chain id
  | expression =>
      refine goesBySteps_bind (goes.expression id) fun given => ?_
      cases given <;> exact goesBySteps_pure _

theorem goesBySteps_rootTexts (roots : List NodeId) : (gen.rootTexts roots).GoesBySteps := by
  induction roots with
  | nil => exact goesBySteps_pure _
  | cons id rest inductionHypothesis =>
      exact goesBySteps_bind (goesBySteps_root gen id) fun _ =>
        goesBySteps_bind inductionHypothesis fun _ => goesBySteps_pure _

/-- The states that a context can be in, also while a pass runs and after one has failed. -/
inductive CanBeIn : PassState → Prop
  | new : CanBeIn (.initial gen.config)
  | begin {state : PassState} (before : CanBeIn state) : CanBeIn (state.named gen.namedVars)
  | step {state later : PassState} (before : CanBeIn state) (step : Step state later) :
      CanBeIn later

section

variable {gen} {state later : PassState}

theorem CanBeIn.goesOn (before : gen.CanBeIn state) (leads : state.LeadsTo later) :
    gen.CanBeIn later :=
  leads.holds before fun _ _ step reached => reached.step step

theorem CanBeIn.isReached (reached : gen.CanBeIn state) : state.IsReached := by
  induction reached with
  | new => exact .initial gen.config
  | begin _ inductionHypothesis => exact inductionHypothesis.named gen.namedVars
  | step _ step inductionHypothesis => exact step.isReached inductionHypothesis

theorem CanBeIn.reserved (reached : gen.CanBeIn state) :
    state.names.reserved = gen.config.reserved := by
  induction reached with
  | new => rfl
  | begin _ inductionHypothesis => exact (reserved_named _ _).trans inductionHypothesis
  | step _ step inductionHypothesis => exact step.reserved.trans inductionHypothesis

end

/-- A pass that is accepted names the variables of the workspace and turns to its roots. -/
theorem outcome_generate_of_ok {roots : List NodeId} (accepted : gen.precheck roots = .ok ())
    (state : PassState) :
    (gen.generate roots).outcome state = Pass.outcome (do
      let texts ← gen.rootTexts roots
      return finish (← get) ("\n".intercalate texts)) (state.named gen.namedVars) := by
  have begins : (modify (·.named gen.namedVars) : Pass PUnit).outcome state =
      (.ok ⟨⟩, state.named gen.namedVars) := rfl
  unfold generate
  rw [accepted]
  dsimp only
  rw [outcome_bind_of_ok begins]

theorem leadsTo_generate {roots : List NodeId} (accepted : gen.precheck roots = .ok ())
    (state : PassState) :
    (state.named gen.namedVars).LeadsTo ((gen.generate roots).outcome state).2 := by
  rw [outcome_generate_of_ok gen accepted]
  exact goesBySteps_bind (goesBySteps_rootTexts gen roots)
    (fun _ => goesBySteps_bind goesBySteps_get fun _ => goesBySteps_pure _) _

end Generator

end BlockVerilog
