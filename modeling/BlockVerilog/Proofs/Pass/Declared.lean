import Mathlib
import BlockVerilog.Proofs.Declarations
import BlockVerilog.Proofs.Pass.History
import BlockVerilog.Proofs.Text.Tidied

/-!
What the handlers of a pass declare, from wherever they are called.

Each computation of a pass has beside it the definitions that it issues, in the order in which it
comes to them, told from the state that it begins in. The declarations that it leaves are those it
found, with each of these definitions made.
-/

namespace BlockVerilog

open Declarations (Definition KeepsFirst headed)
open Pass

/-- What a computation issues, told from the state it begins in. -/
abbrev Issues := PassState → List Definition

namespace Issues

def none : Issues := fun _ => []

/-- What a computation issues, and then what follows its result does. Nothing follows an error. -/
def andThen {α : Type} (first : Issues) (c : Pass α) (next : α → Issues) : Issues := fun state =>
  match c.outcome state with
  | (.ok a, after) => first state ++ next a after
  | (.error _, _) => first state

end Issues

/-- What the answers of an engine issue. -/
structure EngineIssues where
  expression : NodeId → Issues
  chain : NodeId → Issues

namespace Generator

variable (gen : Generator) (below : Engine) (issues : EngineIssues)

/-- What is issued at a node, if the graph has it. -/
def issuesAt (id : NodeId) (ofNode : Node → Issues) : Issues :=
  match gen.graph.get? id with
  | some node => ofNode node
  | none => .none

def valueIssues (id : NodeId) (slot : String) : Issues :=
  gen.issuesAt id fun node => ((node.values.target? slot).map issues.expression).getD .none

def statementsIssues (id : NodeId) (slot : String) : Issues :=
  gen.issuesAt id fun node => ((node.statements.target? slot).map issues.chain).getD .none

/-- Between its own definitions, a script issues those of the slots it asks for. -/
def scriptIssues {α : Type} : Script α → Issues
  | .done _ => .none
  | .fail _ => .none
  | .value id slot required next =>
      (gen.valueIssues issues id slot).andThen (gen.value below id slot required) fun text =>
        scriptIssues (next text)
  | .statements id slot next =>
      (gen.statementsIssues issues id slot).andThen (gen.statements below id slot) fun text =>
        scriptIssues (next text)
  | .variableName id next =>
      Issues.none.andThen (gen.variableName id) fun name => scriptIssues (next name)
  | .freshName wanted next =>
      Issues.none.andThen (freshName wanted) fun name => scriptIssues (next name)
  | .define key text next =>
      Issues.andThen (fun _ => [(key, text)]) (define key text) fun isNew =>
        scriptIssues (next isNew)

def expressionIssues (id : NodeId) : Issues :=
  gen.issuesAt id fun node =>
    if node.enabled then
      match gen.table.get? node.kind with
      | some (.expression generate) => gen.scriptIssues below issues (generate (gen.site id node))
      | _ => .none
    else .none

def statementIssues (id : NodeId) : Issues :=
  gen.issuesAt id fun node =>
    match gen.table.get? node.kind with
    | some (.statement generate) => gen.scriptIssues below issues (generate (gen.site id node))
    | _ => .none

def commentedIssues (id : NodeId) : Issues :=
  gen.issuesAt id fun node => if node.enabled then gen.statementIssues below issues id else .none

def commentedAllIssues : List NodeId → Issues
  | [] => .none
  | id :: rest =>
      (gen.commentedIssues below issues id).andThen (gen.commented below id) fun _ =>
        commentedAllIssues rest

def chainIssues (head : NodeId) : Issues :=
  gen.commentedAllIssues below issues (gen.graph.chain head).1

def engineIssues : (depth : Nat) → EngineIssues
  | 0 => ⟨fun _ => .none, fun _ => .none⟩
  | depth + 1 =>
      ⟨gen.expressionIssues (gen.engine depth) (engineIssues depth),
        gen.chainIssues (gen.engine depth) (engineIssues depth)⟩

def rootIssues (id : NodeId) : Issues :=
  gen.issuesAt id fun node =>
    match node.shape with
    | .statement => (gen.engineIssues gen.graph.size).chain id
    | .expression => (gen.engineIssues gen.graph.size).expression id

def rootsIssues : List NodeId → Issues
  | [] => .none
  | id :: rest => (gen.rootIssues id).andThen (gen.root id) fun _ => rootsIssues rest

end Generator

namespace Pass

variable {α β : Type}

/-- A computation leaves the declarations it finds, with the definitions made that it issues. -/
def Declares (c : Pass α) (issues : Issues) : Prop :=
  ∀ state, (c.outcome state).2.declarations = state.declarations.defineAll (issues state)

theorem declares_pure (a : α) : Declares (pure a) .none := fun _ => rfl

theorem declares_throw (e : PassError) : Declares (throw e : Pass α) .none := fun _ => rfl

theorem declares_bind {c : Pass α} {f : α → Pass β} {first : Issues} {next : α → Issues}
    (declares : c.Declares first) (declaresNext : ∀ a, (f a).Declares (next a)) :
    (c >>= f).Declares (first.andThen c next) := by
  intro state
  have made := declares state
  rw [outcome_bind, Issues.andThen]
  rcases ended : c.outcome state with ⟨e | a, after⟩
  · rwa [ended] at made
  · rw [ended] at made
    change ((f a).outcome after).2.declarations = state.declarations.defineAll (_ ++ _)
    rw [declaresNext a after, Declarations.defineAll_append, made]

/-- After a computation, one that issues nothing may follow. -/
theorem Declares.followed {c : Pass α} {issues : Issues} (declares : c.Declares issues)
    {f : α → Pass β} (quiet : ∀ a, (f a).Declares .none) : (c >>= f).Declares issues := by
  have both := declares_bind declares quiet
  intro state
  rw [both state, Issues.andThen]
  rcases c.outcome state with ⟨e | a, after⟩
  · rfl
  · change state.declarations.defineAll (issues state ++ []) = _
    rw [List.append_nil]

end Pass

namespace Generator

variable {gen : Generator}

theorem declares_issuesAt {α : Type} (id : NodeId) {f : Node → Pass α} {ofNode : Node → Issues}
    (declares : ∀ node, (f node).Declares (ofNode node)) :
    (gen.node id >>= f).Declares (gen.issuesAt id ofNode) := by
  unfold Generator.node issuesAt
  cases gen.graph.get? id with
  | none => exact declares_throw _
  | some node => exact declares node

theorem declares_variableName (id : String) : (gen.variableName id).Declares .none := fun _ => rfl

theorem declares_freshName (wanted : String) : (freshName wanted).Declares .none := fun _ => rfl

theorem declares_define (key text : String) :
    (define key text).Declares fun _ => [(key, text)] := fun _ => rfl

/-- Each answer of an engine declares what it issues. -/
structure EngineDeclares (below : Engine) (issues : EngineIssues) : Prop where
  expression : ∀ id, (below.expression id).Declares (issues.expression id)
  chain : ∀ id, (below.chain id).Declares (issues.chain id)

section

variable {below : Engine} {issues : EngineIssues} (declares : EngineDeclares below issues)
include declares

theorem declares_value (id : NodeId) (slot : String) (required : Precedence) :
    (gen.value below id slot required).Declares (gen.valueIssues issues id slot) := by
  apply declares_issuesAt
  intro node
  cases node.values.target? slot with
  | none => exact declares_pure _
  | some child =>
      apply (declares.expression child).followed
      intro given
      cases given <;> exact declares_pure _

theorem declares_statements (id : NodeId) (slot : String) :
    (gen.statements below id slot).Declares (gen.statementsIssues issues id slot) := by
  apply declares_issuesAt
  intro node
  cases node.statements.target? slot with
  | none => exact declares_pure _
  | some head => exact (declares.chain head).followed fun _ => declares_pure _

theorem declares_run {α : Type} (script : Script α) :
    (gen.run below script).Declares (gen.scriptIssues below issues script) := by
  induction script with
  | done a => exact declares_pure a
  | fail e => exact declares_throw e
  | value id slot required next inductionHypothesis =>
      exact declares_bind (declares_value declares id slot required) inductionHypothesis
  | statements id slot next inductionHypothesis =>
      exact declares_bind (declares_statements declares id slot) inductionHypothesis
  | variableName id next inductionHypothesis =>
      exact declares_bind (declares_variableName id) inductionHypothesis
  | freshName wanted next inductionHypothesis =>
      exact declares_bind (declares_freshName wanted) inductionHypothesis
  | define key text next inductionHypothesis =>
      exact declares_bind (declares_define key text) inductionHypothesis

theorem declares_expressionAt (id : NodeId) :
    (gen.expressionAt below id).Declares (gen.expressionIssues below issues id) := by
  apply declares_issuesAt
  intro node
  by_cases enabled : node.enabled = true
  · rw [if_pos enabled, if_pos enabled]
    rcases gen.table.get? node.kind with _ | generate | generate
    · exact declares_throw _
    · exact (declares_run declares _).followed fun _ => declares_pure _
    · exact declares_throw _
  · rw [if_neg enabled, if_neg enabled]
    exact declares_pure _

theorem declares_statementAt (id : NodeId) :
    (gen.statementAt below id).Declares (gen.statementIssues below issues id) := by
  apply declares_issuesAt
  intro node
  rcases gen.table.get? node.kind with _ | generate | generate
  · exact declares_throw _
  · exact declares_throw _
  · exact declares_run declares _

theorem declares_commented (id : NodeId) :
    (gen.commented below id).Declares (gen.commentedIssues below issues id) := by
  apply declares_issuesAt
  intro node
  by_cases enabled : node.enabled = true
  · rw [if_pos enabled, if_pos enabled]
    exact (declares_statementAt declares id).followed fun _ => declares_pure _
  · rw [if_neg enabled, if_neg enabled]
    exact declares_pure _

theorem declares_commentedAll (ids : List NodeId) :
    (gen.commentedAll below ids).Declares (gen.commentedAllIssues below issues ids) := by
  induction ids with
  | nil => exact declares_pure _
  | cons id rest inductionHypothesis =>
      apply declares_bind (declares_commented declares id)
      exact fun _ => inductionHypothesis.followed fun _ => declares_pure _

theorem declares_chainAt (head : NodeId) :
    (gen.chainAt below head).Declares (gen.chainIssues below issues head) := by
  apply (declares_commentedAll declares _).followed
  intro text
  split
  next => exact declares_pure _
  next => exact declares_throw _

end

theorem engineDeclares_engine (depth : Nat) :
    EngineDeclares (gen.engine depth) (gen.engineIssues depth) := by
  induction depth with
  | zero => exact ⟨fun _ => declares_throw _, fun _ => declares_throw _⟩
  | succ depth inductionHypothesis =>
      rw [engine_succ]
      exact ⟨declares_expressionAt inductionHypothesis, declares_chainAt inductionHypothesis⟩

theorem declares_root (id : NodeId) : (gen.root id).Declares (gen.rootIssues id) := by
  have declares : EngineDeclares gen.whole (gen.engineIssues gen.graph.size) :=
    engineDeclares_engine _
  apply declares_issuesAt
  intro node
  cases node.shape with
  | statement => exact declares.chain id
  | expression =>
      apply (declares.expression id).followed
      intro given
      cases given <;> exact declares_pure _

theorem declares_rootTexts (roots : List NodeId) :
    (gen.rootTexts roots).Declares (gen.rootsIssues roots) := by
  induction roots with
  | nil => exact declares_pure _
  | cons id rest inductionHypothesis =>
      apply declares_bind (declares_root id)
      exact fun _ => inductionHypothesis.followed fun _ => declares_pure _

/-- What the handlers of a pass define, in the order in which they do. -/
def issued (gen : Generator) (roots : List NodeId) (state : PassState) : List Definition :=
  gen.rootsIssues roots (state.named gen.namedVars)

/-- The declarations that a pass leaves are made of its own definitions only. -/
theorem records_issued {roots : List NodeId} {state after : PassState} {parts : List String}
    (ran : (gen.rootTexts roots).outcome (state.named gen.namedVars) = (.ok parts, after)) :
    Declarations.Records (gen.issued roots state) after.declarations := by
  have declares : (gen.rootTexts roots).Declares (gen.rootsIssues roots) := declares_rootTexts roots
  have made := declares (state.named gen.namedVars)
  rw [ran, PassState.declarations_named] at made
  rw [made]
  exact Declarations.Records.empty.defineAll (gen.issued roots state)

theorem finish_of_keepsFirst {made : List Definition} {state : PassState}
    (keeps : KeepsFirst made state.declarations) (body : String) :
    finish state body = Text.tidied (headed made body) := by
  have none_iff : state.declarations.isEmpty = true ↔ made = [] :=
    keeps.isEmpty.trans Declarations.firstTexts_eq_nil_iff
  simp only [finish, Declarations.hoistOver, keeps.texts, none_iff]
  rfl

/-- Handlers that declare the key of their node for a net that all of them share. A statement does
so between its slots, and declares a clock after them. -/
def sharingTable : HandlerTable :=
  .ofList [
    ("read", .expression fun site =>
      .define "net" site.node.key fun _ => .done ("net", .atomic)),
    ("drive", .statement fun site =>
      .value site.id "VALUE" .none fun value =>
        .define "net" site.node.key fun isNew =>
          .statements site.id "DO" fun inner =>
            .define "clock" "wire clock;" fun _ =>
              .done (value.getD (toString isNew) ++ ";\n" ++ inner))]

/-- A statement with an expression and another statement inside. -/
def sharingNet : Generator where
  graph :=
    { nodes := #[
        { Node.blank "drive" .statement with
          key := "reg net;"
          values := .ofList [("VALUE", some 1)]
          statements := .ofList [("DO", some 2)] },
        { Node.blank "read" .expression with key := "wire net;" },
        { Node.blank "drive" .statement with key := "tri net;" }]
      vars := [] }
  table := sharingTable
  config := .standard

example : sharingNet.issued [0] (.initial .standard) =
    [("net", "wire net;"), ("net", "reg net;"), ("net", "tri net;"), ("clock", "wire clock;"),
      ("clock", "wire clock;")] := by
  cbv

end Generator

end BlockVerilog
