import BlockVerilog.Proofs.Checks
import BlockVerilog.Proofs.Pass.Steps

/-!
A pass does not depend on what was done before it.

Names, declarations and the count of helpers change with everything that is done, but nothing
changes the reserved words, not even a call that fails. Of the state that a pass begins with,
nothing else matters.
-/

namespace BlockVerilog

namespace PassState

/-- A pass begins the same from states with the same reserved words. -/
theorem named_congr {first second : PassState}
    (words : first.names.reserved = second.names.reserved) (vars : List (String × String)) :
    first.named vars = second.named vars := by
  have same : first.reset = second.reset := by
    simp only [reset, Names.reset, words]
  rw [named, named, same]

end PassState

namespace Generator

open Pass

variable {gen : Generator}

theorem precheck_eq_ok_iff {roots : List NodeId} :
    gen.precheck roots = .ok () ↔
      gen.graph.validate roots = .ok () ∧ gen.table.check gen.graph roots = .ok () := by
  unfold precheck
  cases gen.graph.validate roots with
  | error defect => simp
  | ok => simp

/-- A pass that is refused changes nothing. -/
theorem outcome_generate_of_error {roots : List NodeId} {e : PassError}
    (refused : gen.precheck roots = .error e) (state : PassState) :
    (gen.generate roots).outcome state = (.error e, state) := by
  unfold generate
  rw [refused]
  rfl

/-- Of the state that a pass begins with, only the reserved words matter. -/
theorem outcome_generate_congr {roots : List NodeId} (accepted : gen.precheck roots = .ok ())
    {first second : PassState} (words : first.names.reserved = second.names.reserved) :
    (gen.generate roots).outcome first = (gen.generate roots).outcome second := by
  rw [outcome_generate_of_ok gen accepted, outcome_generate_of_ok gen accepted,
    PassState.named_congr words gen.namedVars]

/-- A pass that succeeds puts together what its roots give. -/
theorem exists_of_outcome_generate {roots : List NodeId} {state after : PassState} {text : String}
    (ran : (gen.generate roots).outcome state = (.ok text, after)) :
    ∃ parts, (gen.rootTexts roots).outcome (state.named gen.namedVars) = (.ok parts, after) ∧
      text = finish after ("\n".intercalate parts) := by
  cases checked : gen.precheck roots with
  | error e =>
      rw [outcome_generate_of_error checked] at ran
      cases ran
  | ok =>
      rw [outcome_generate_of_ok gen checked] at ran
      obtain ⟨parts, between, printed, finished⟩ := exists_of_outcome_bind ran
      have finishes : Pass.outcome (do return finish (← get) ("\n".intercalate parts)) between =
          (.ok (finish between ("\n".intercalate parts)), between) := rfl
      rw [finishes] at finished
      obtain ⟨same, rfl⟩ := Prod.mk.inj finished
      exact ⟨parts, printed, (Except.ok.inj same).symm⟩

/-- What can be asked of a context. -/
inductive Call where
  | generate (roots : List NodeId)
  | expression (id : NodeId)
  | statement (id : NodeId)
  | chain (head : NodeId)
  | value (id : NodeId) (slot : String) (required : Precedence)
  | statements (id : NodeId) (slot : String)
  | variableName (id : String)
  | freshName (wanted : String)
  | define (key text : String)

/-- The state that a call leaves, whether it succeeds or fails. -/
def Call.leaves (gen : Generator) (call : Call) (state : PassState) : PassState :=
  match call with
  | generate roots => ((gen.generate roots).outcome state).2
  | expression id => ((gen.whole.expression id).outcome state).2
  | statement id => ((gen.statement id).outcome state).2
  | chain head => ((gen.whole.chain head).outcome state).2
  | value id slot required => ((gen.value gen.whole id slot required).outcome state).2
  | statements id slot => ((gen.statements gen.whole id slot).outcome state).2
  | variableName id => ((gen.variableName id).outcome state).2
  | freshName wanted => ((Generator.freshName wanted).outcome state).2
  | define key text => ((Generator.define key text).outcome state).2

/-- The state of a new context after calls, one after the other. -/
def stateAfter (gen : Generator) (calls : List Call) : PassState :=
  calls.foldl (fun state call => call.leaves gen state) (.initial gen.config)

theorem Call.canBeIn_leaves (call : Call) {state : PassState} (before : gen.CanBeIn state) :
    gen.CanBeIn (call.leaves gen state) := by
  have goes := engineGoesBySteps_whole gen
  cases call with
  | generate roots =>
      cases checked : gen.precheck roots with
      | error e =>
          rw [leaves, outcome_generate_of_error checked]
          exact before
      | ok => exact before.begin.goesOn (leadsTo_generate gen checked state)
  | expression id => exact before.goesOn (goes.expression id state)
  | statement id => exact before.goesOn (goesBySteps_statementAt goes id state)
  | chain head => exact before.goesOn (goes.chain head state)
  | value id slot required => exact before.goesOn (goesBySteps_value goes id slot required state)
  | statements id slot => exact before.goesOn (goesBySteps_statements goes id slot state)
  | variableName id => exact before.goesOn (goesBySteps_variableName gen id state)
  | freshName wanted => exact before.goesOn (goesBySteps_freshName wanted state)
  | define key text => exact before.goesOn (goesBySteps_define key text state)

theorem canBeIn_stateAfter (calls : List Call) : gen.CanBeIn (gen.stateAfter calls) := by
  have kept : ∀ begins : PassState, gen.CanBeIn begins →
      gen.CanBeIn (calls.foldl (fun state call => call.leaves gen state) begins) := by
    induction calls with
    | nil => exact fun _ before => before
    | cons call calls inductionHypothesis =>
        exact fun begins before => inductionHypothesis _ (call.canBeIn_leaves before)
  exact kept _ .new

theorem reserved_stateAfter (calls : List Call) :
    (gen.stateAfter calls).names.reserved = gen.config.reserved :=
  (canBeIn_stateAfter calls).reserved

end Generator

end BlockVerilog
