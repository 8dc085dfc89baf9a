import BlockVerilog.Handlers.Builtin
import BlockVerilog.Proofs.Handlers.Check
import BlockVerilog.Proofs.OrderedMap
import BlockVerilog.Proofs.Pass.Answers
import BlockVerilog.Proofs.Pass.History

/-!
Variables keep their names.

A pass names the variables of the workspace before anything else, so that nothing that follows can
get in the way of their names. A name that is given stays for the rest of the pass: the names that
are there when it ends answer every question about variables that was asked on the way.
-/

namespace BlockVerilog

namespace Script

variable {α : Type}

/-- A script that goes by a naming of its own: it asks for the names of variables as before, and
takes them from the naming whatever the answer is. -/
def withNames (naming : String → String) : Script α → Script α
  | done a => done a
  | fail e => fail e
  | value node slot required next =>
      value node slot required fun text => (next text).withNames naming
  | statements node slot next => statements node slot fun text => (next text).withNames naming
  | variableName id next => variableName id fun _ => (next (naming id)).withNames naming
  | freshName wanted next => freshName wanted fun name => (next name).withNames naming
  | define key text next => define key text fun isNew => (next isNew).withNames naming

end Script

def Handler.withNames (naming : String → String) : Handler → Handler
  | expression generate => .expression fun site => (generate site).withNames naming
  | statement generate => .statement fun site => (generate site).withNames naming

@[simp] theorem Handler.shape_withNames (naming : String → String) (handler : Handler) :
    (handler.withNames naming).shape = handler.shape := by
  cases handler <;> rfl

namespace HandlerTable

/-- Handlers that go by a naming of their own. -/
def withNames (naming : String → String) (table : HandlerTable) : HandlerTable :=
  table.mapValues (Handler.withNames naming)

variable (naming : String → String) (table : HandlerTable)

@[simp] theorem get?_withNames (kind : String) :
    (table.withNames naming).get? kind = (table.get? kind).map (Handler.withNames naming) :=
  OrderedMap.get?_mapValues _ _ _

theorem fault?_withNames (node : Node) :
    (table.withNames naming).fault? node = table.fault? node := by
  unfold fault?
  rw [get?_withNames]
  cases table.get? node.kind with
  | none => rfl
  | some handler => simp

theorem check_withNames {g : Graph} {roots : List NodeId}
    (checked : table.check g roots = .ok ()) :
    (table.withNames naming).check g roots = .ok () := by
  rw [check_eq_ok_iff] at checked ⊢
  intro id node live found enabled
  rw [fault?_withNames]
  exact checked id node live found enabled

end HandlerTable

/-- Generation with handlers that go by a naming of their own. -/
def Generator.withNames (naming : String → String) (gen : Generator) : Generator :=
  { gen with table := gen.table.withNames naming }

namespace PassState

/-- What variables are called is what they are called by a naming. -/
def AgreesWith (naming : String → String) (state : PassState) : Prop :=
  ∀ id name, state.names.lookup (.variable, id) = some name → naming id = name

theorem Keeps.agreesWith {naming : String → String} {state later : PassState}
    (keeps : state.Keeps later) (agrees : later.AgreesWith naming) : state.AgreesWith naming :=
  fun id name given => agrees id name (keeps _ name given)

/-- What a state calls variables; one that has no name is called what no name is. -/
def naming (state : PassState) (id : String) : String :=
  (state.names.lookup (.variable, id)).getD ("#" ++ id)

theorem naming_of_lookup {state : PassState} {id name : String}
    (given : state.names.lookup (.variable, id) = some name) : state.naming id = name := by
  rw [naming, given, Option.getD_some]

theorem naming_of_unnamed {state : PassState} {id : String}
    (unnamed : state.names.lookup (.variable, id) = none) : state.naming id = "#" ++ id := by
  rw [naming, unnamed, Option.getD_none]

theorem agreesWith_naming (state : PassState) : state.AgreesWith state.naming := fun _ _ given =>
  naming_of_lookup given

theorem not_isLegal_marked (id : String) : ¬ Names.IsLegal ("#" ++ id) := by
  intro legal
  have word := Identifier.isWordChar_of_mem legal.identifier (c := '#') (by simp)
  exact absurd word (by decide)

theorem IsReached.naming_injective {state : PassState} (reached : state.IsReached) :
    Function.Injective state.naming := by
  intro first second same
  have ofNamed : ∀ {id other name : String}, state.names.lookup (.variable, id) = some name →
      state.naming other = name → other = id := by
    intro id other name given called
    cases held : state.names.lookup (.variable, other) with
    | some otherName =>
        rw [naming_of_lookup held] at called
        subst called
        exact congrArg Prod.snd (reached.allDistinct _ _ _ held given)
    | none =>
        rw [naming_of_unnamed held] at called
        exact absurd (called ▸ reached.allLegal _ _ given) (not_isLegal_marked other)
  cases given : state.names.lookup (.variable, first) with
  | some name => exact (ofNamed given (same.symm.trans (naming_of_lookup given))).symm
  | none =>
      cases otherGiven : state.names.lookup (.variable, second) with
      | some name => exact ofNamed otherGiven (same.trans (naming_of_lookup otherGiven))
      | none =>
          rw [naming_of_unnamed given, naming_of_unnamed otherGiven] at same
          exact String.toList_inj.mp (by simpa using congrArg String.toList same)

/-- Names that are there when a pass begins are there too when one begins with more variables. -/
theorem keeps_named_of_prefix {first second : PassState}
    (words : first.names.reserved = second.names.reserved) {vars more : List (String × String)}
    (extended : vars <+: more) : (first.named vars).Keeps (second.named more) := by
  obtain ⟨rest, rfl⟩ := extended
  rw [named_congr words]
  unfold named
  rw [List.foldl_append]
  exact keeps_foldl_nameVariable _ rest

end PassState

namespace Pass

open PassState

variable {α β : Type} {naming : String → String}

/-- Wherever the names that the first computation leaves agree with a naming, the second gives the
same and leaves the same. -/
structure Imitates (naming : String → String) (first second : Pass α) : Prop where
  goes : first.GoesBySteps
  same : ∀ state, (first.outcome state).2.AgreesWith naming →
    second.outcome state = first.outcome state

theorem GoesBySteps.imitates {c : Pass α} (goes : c.GoesBySteps) : Imitates naming c c where
  goes := goes
  same _ _ := rfl

theorem imitates_pure (a : α) : Imitates naming (pure a) (pure a) := (goesBySteps_pure a).imitates

theorem imitates_throw (e : PassError) : Imitates naming (throw e : Pass α) (throw e) :=
  (goesBySteps_throw e).imitates

theorem imitates_bind {first second : Pass α} {firstNext secondNext : α → Pass β}
    (begins : Imitates naming first second)
    (goesOn : ∀ a, Imitates naming (firstNext a) (secondNext a)) :
    Imitates naming (first >>= firstNext) (second >>= secondNext) where
  goes := goesBySteps_bind begins.goes fun a => (goesOn a).goes
  same := by
    intro state agrees
    have same := begins.same state
    rw [outcome_bind] at agrees ⊢
    rw [outcome_bind]
    rcases ran : first.outcome state with ⟨e | a, after⟩
    · rw [ran] at same agrees
      rw [same agrees]
    · rw [ran] at same agrees
      have keeps := ((goesOn a).goes after).keeps
      rw [same (keeps.agreesWith agrees)]
      exact (goesOn a).same after agrees

end Pass

namespace Generator

open Pass PassState

variable {gen : Generator} {naming : String → String} {below other : Engine}

/-- The answers of one engine are imitated by another. -/
structure EngineImitates (naming : String → String) (below other : Engine) : Prop where
  expression : ∀ id, Imitates naming (below.expression id) (other.expression id)
  chain : ∀ id, Imitates naming (below.chain id) (other.chain id)

theorem imitates_node (id : NodeId) :
    Imitates naming (gen.node id) ((gen.withNames naming).node id) :=
  (goesBySteps_node gen id).imitates

/-- The name that a variable is given is there when all is done, so that the naming knows it. -/
theorem imitates_variableName {α : Type} {id : String} {next : String → Pass α}
    {naturally : String → Pass α} (goesOn : ∀ name, Imitates naming (next name) (naturally name)) :
    Imitates naming (gen.variableName id >>= next)
      ((gen.withNames naming).variableName id >>= fun _ => naturally (naming id)) where
  goes := goesBySteps_bind (goesBySteps_variableName gen id) fun name => (goesOn name).goes
  same := by
    intro state agrees
    let requested := (gen.graph.variableName? id).getD id
    let given := state.nameVariable id requested
    have asked : (gen.variableName id).outcome state = (.ok given.1, given.2) := rfl
    have askedToo : ((gen.withNames naming).variableName id).outcome state =
        (.ok given.1, given.2) := rfl
    rw [outcome_bind_of_ok asked] at agrees ⊢
    rw [outcome_bind_of_ok askedToo]
    have keeps := ((goesOn given.1).goes given.2).keeps
    have named : naming id = given.1 :=
      agrees id given.1 (keeps _ _ (lookup_nameVariable state id requested))
    rw [named]
    exact (goesOn given.1).same given.2 agrees

section

variable (imitates : EngineImitates naming below other)
include imitates

theorem imitates_value (id : NodeId) (slot : String) (required : Precedence) :
    Imitates naming (gen.value below id slot required)
      ((gen.withNames naming).value other id slot required) := by
  unfold Generator.value
  refine imitates_bind (imitates_node id) fun node => ?_
  cases node.values.target? slot with
  | none => exact imitates_pure none
  | some child =>
      refine imitates_bind (imitates.expression child) fun given => ?_
      cases given <;> exact imitates_pure _

theorem imitates_statements (id : NodeId) (slot : String) :
    Imitates naming (gen.statements below id slot)
      ((gen.withNames naming).statements other id slot) := by
  unfold Generator.statements
  refine imitates_bind (imitates_node id) fun node => ?_
  cases node.statements.target? slot with
  | none => exact imitates_pure ""
  | some head => exact imitates_bind (imitates.chain head) fun _ => imitates_pure _

theorem imitates_run {α : Type} (script : Script α) :
    Imitates naming (gen.run below script)
      ((gen.withNames naming).run other (script.withNames naming)) := by
  induction script with
  | done a => exact imitates_pure a
  | fail e => exact imitates_throw e
  | value id slot required next inductionHypothesis =>
      exact imitates_bind (imitates_value imitates id slot required) inductionHypothesis
  | statements id slot next inductionHypothesis =>
      exact imitates_bind (imitates_statements imitates id slot) inductionHypothesis
  | variableName id next inductionHypothesis => exact imitates_variableName inductionHypothesis
  | freshName wanted next inductionHypothesis =>
      exact imitates_bind (goesBySteps_freshName wanted).imitates inductionHypothesis
  | define key text next inductionHypothesis =>
      exact imitates_bind (goesBySteps_define key text).imitates inductionHypothesis

theorem imitates_expressionAt (id : NodeId) :
    Imitates naming (gen.expressionAt below id)
      ((gen.withNames naming).expressionAt other id) := by
  unfold expressionAt
  refine imitates_bind (imitates_node id) fun node => ?_
  split
  next =>
    simp only [withNames, HandlerTable.get?_withNames]
    cases gen.table.get? node.kind with
    | none => exact imitates_throw _
    | some handler =>
        cases handler with
        | expression generate =>
            exact imitates_bind (imitates_run imitates _) fun _ => imitates_pure _
        | statement generate => exact imitates_throw _
  next => exact imitates_pure none

theorem imitates_statementAt (id : NodeId) :
    Imitates naming (gen.statementAt below id)
      ((gen.withNames naming).statementAt other id) := by
  unfold statementAt
  refine imitates_bind (imitates_node id) fun node => ?_
  simp only [withNames, HandlerTable.get?_withNames]
  cases gen.table.get? node.kind with
  | none => exact imitates_throw _
  | some handler =>
      cases handler with
      | expression generate => exact imitates_throw _
      | statement generate => exact imitates_run imitates _

theorem imitates_commented (id : NodeId) :
    Imitates naming (gen.commented below id) ((gen.withNames naming).commented other id) := by
  unfold commented
  refine imitates_bind (imitates_node id) fun node => ?_
  split
  next => exact imitates_bind (imitates_statementAt imitates id) fun _ => imitates_pure _
  next => exact imitates_pure ""

theorem imitates_commentedAll (ids : List NodeId) :
    Imitates naming (gen.commentedAll below ids)
      ((gen.withNames naming).commentedAll other ids) := by
  induction ids with
  | nil => exact imitates_pure ""
  | cons id rest inductionHypothesis =>
      exact imitates_bind (imitates_commented imitates id) fun _ =>
        imitates_bind inductionHypothesis fun _ => imitates_pure _

theorem imitates_chainAt (head : NodeId) :
    Imitates naming (gen.chainAt below head) ((gen.withNames naming).chainAt other head) := by
  have ends : ∀ text : String, GoesBySteps
      (if (gen.graph.chain head).2 then pure text else throw .endless : Pass String) := by
    intro text
    split
    next => exact goesBySteps_pure text
    next => exact goesBySteps_throw .endless
  exact imitates_bind (imitates_commentedAll imitates _) fun text => (ends text).imitates

end

theorem engineImitates_engine (depth : Nat) :
    EngineImitates naming (gen.engine depth) ((gen.withNames naming).engine depth) := by
  induction depth with
  | zero => exact ⟨fun _ => imitates_throw _, fun _ => imitates_throw _⟩
  | succ depth inductionHypothesis =>
      rw [engine_succ, engine_succ]
      exact ⟨imitates_expressionAt inductionHypothesis, imitates_chainAt inductionHypothesis⟩

theorem imitates_root (id : NodeId) :
    Imitates naming (gen.root id) ((gen.withNames naming).root id) := by
  have imitates : EngineImitates naming gen.whole (gen.withNames naming).whole :=
    engineImitates_engine gen.graph.size
  unfold root
  refine imitates_bind (imitates_node id) fun node => ?_
  cases node.shape with
  | statement => exact imitates.chain id
  | expression =>
      refine imitates_bind (imitates.expression id) fun given => ?_
      cases given <;> exact imitates_pure _

theorem imitates_rootTexts (roots : List NodeId) :
    Imitates naming (gen.rootTexts roots) ((gen.withNames naming).rootTexts roots) := by
  induction roots with
  | nil => exact imitates_pure []
  | cons id rest inductionHypothesis =>
      exact imitates_bind (imitates_root id) fun _ =>
        imitates_bind inductionHypothesis fun _ => imitates_pure _

theorem precheck_withNames {roots : List NodeId} (accepted : gen.precheck roots = .ok ()) :
    (gen.withNames naming).precheck roots = .ok () := by
  rw [precheck_eq_ok_iff] at accepted ⊢
  exact ⟨accepted.1, HandlerTable.check_withNames naming gen.table accepted.2⟩

theorem generate_withNames {roots : List NodeId} (accepted : gen.precheck roots = .ok ())
    {state : PassState} (agrees : ((gen.generate roots).outcome state).2.AgreesWith naming) :
    ((gen.withNames naming).generate roots).outcome state =
      (gen.generate roots).outcome state := by
  have begins : Imitates naming (gen.rootTexts roots) ((gen.withNames naming).rootTexts roots) :=
    imitates_rootTexts roots
  have finishes : ∀ texts : List String,
      GoesBySteps (do return finish (← get) ("\n".intercalate texts) : Pass String) :=
    fun texts => goesBySteps_bind goesBySteps_get fun _ => goesBySteps_pure _
  rw [outcome_generate_of_ok gen accepted] at agrees ⊢
  rw [outcome_generate_of_ok _ (precheck_withNames accepted)]
  exact (imitates_bind begins fun texts => (finishes texts).imitates).same _ agrees

/-- A node that reads a variable is written as the naming calls it. -/
theorem variableRead_withNames {id : NodeId} {node : Node}
    (found : gen.graph.get? id = some node) (enabled : node.enabled = true)
    (registered : gen.table.get? node.kind = some Handlers.variableRead) (below : Engine)
    (state : PassState) :
    (((gen.withNames naming).expressionAt below id).outcome state).1 =
      .ok (some (Handlers.atom (naming (node.field "VAR")))) := by
  have held : (gen.withNames naming).graph.get? id = some node := found
  have handled : (gen.withNames naming).table.get? node.kind =
      some (.expression fun site => .variableName (site.field "VAR") fun _ =>
        .done (Handlers.atom (naming (site.field "VAR")))) := by
    rw [withNames, HandlerTable.get?_withNames, registered]
    rfl
  rw [expressionAt_of_registered held enabled handled]
  rfl

/-- A node that assigns to a variable is written with what the naming calls it in front. -/
theorem assignment_withNames {id : NodeId} {node : Node} {lead sign : String}
    (found : gen.graph.get? id = some node)
    (registered : gen.table.get? node.kind = some (Handlers.assignment lead sign))
    {below : Engine} {state after : PassState} {text : String}
    (written : ((gen.withNames naming).statementAt below id).outcome state = (.ok text, after)) :
    ∃ value, text = lead ++ naming (node.field "var") ++ " " ++ sign ++ " " ++ value ++ ";\n" := by
  have held : (gen.withNames naming).graph.get? id = some node := found
  have handled : (gen.withNames naming).table.get? node.kind =
      some ((Handlers.assignment lead sign).withNames naming) := by
    rw [withNames, HandlerTable.get?_withNames, registered, Option.map_some]
  unfold statementAt at written
  simp only [node_eq_pure held, pure_bind, handled] at written
  -- The rest of the handler, once its name is taken from the naming.
  have ran : ((gen.withNames naming).variableName (node.field "var") >>= fun _ =>
      (gen.withNames naming).value below id "NAME" .none >>= fun value =>
        pure (lead ++ naming (node.field "var") ++ " " ++ sign ++ " " ++ value.getD "X" ++
          ";\n")).outcome state = (.ok text, after) := written
  obtain ⟨_, between, _, ran⟩ := exists_of_outcome_bind ran
  obtain ⟨value, afterToo, _, ran⟩ := exists_of_outcome_bind ran
  cases ran
  exact ⟨value.getD "X", rfl⟩

/-- A pass writes variables by a naming that tells any two ids apart: with handlers that take every
name from it, the pass gives the same and leaves the same. -/
structure WritesBy (gen : Generator) (roots : List NodeId) (state : PassState)
    (naming : String → String) : Prop where
  apart : ∀ first second, naming first = naming second ↔ first = second
  left : ((gen.generate roots).outcome state).2.AgreesWith naming
  same : ((gen.withNames naming).generate roots).outcome state =
    (gen.generate roots).outcome state
  reads : ∀ id node, gen.graph.get? id = some node → node.enabled = true →
    gen.table.get? node.kind = some Handlers.variableRead → ∀ below during,
      (((gen.withNames naming).expressionAt below id).outcome during).1 =
        .ok (some (Handlers.atom (naming (node.field "VAR"))))
  assigns : ∀ id node lead sign, gen.graph.get? id = some node →
    gen.table.get? node.kind = some (Handlers.assignment lead sign) →
    ∀ below during text after,
      ((gen.withNames naming).statementAt below id).outcome during = (.ok text, after) →
      ∃ value, text = lead ++ naming (node.field "var") ++ " " ++ sign ++ " " ++ value ++ ";\n"

theorem exists_writesBy {roots : List NodeId} (accepted : gen.precheck roots = .ok ())
    {state : PassState} (reached : gen.CanBeIn state) :
    ∃ naming, gen.WritesBy roots state naming := by
  let after := ((gen.generate roots).outcome state).2
  have reachedAfter : after.IsReached :=
    (reached.begin.goesOn (leadsTo_generate gen accepted state)).isReached
  refine ⟨after.naming, ?_⟩
  constructor
  case apart => exact fun _ _ => reachedAfter.naming_injective.eq_iff
  case left => exact after.agreesWith_naming
  case same => exact generate_withNames accepted after.agreesWith_naming
  case reads =>
    exact fun _ _ found enabled registered => variableRead_withNames found enabled registered
  case assigns =>
    exact fun _ _ _ _ found registered _ _ _ _ => assignment_withNames found registered

/-- Names of variables depend on the reserved words and on the variables of the workspace alone, and
variables that are added at the end change none of them: not the settings, the handlers, the nodes
and which of them are enabled, the roots, what was done before, nor a handler that fails. Within a
pass, ids are written alike exactly if they are the same. -/
theorem variables_keep_their_names {first second : Generator}
    (words : first.config.reserved = second.config.reserved)
    (vars : first.graph.vars <+: second.graph.vars) (earlier later : List Call)
    {roots others : List NodeId}
    (accepted : first.graph.validate roots = .ok () ∧
      first.table.check first.graph roots = .ok ())
    (othersAccepted : second.graph.validate others = .ok () ∧
      second.table.check second.graph others = .ok ()) :
    (∀ v ∈ first.graph.vars, ∃ name,
      ((first.generate roots).outcome (first.stateAfter earlier)).2.names.lookup
        (.variable, v.id) = some name ∧
      ((second.generate others).outcome (second.stateAfter later)).2.names.lookup
        (.variable, v.id) = some name) ∧
      ∃ naming, first.WritesBy roots (first.stateAfter earlier) naming := by
  rw [← precheck_eq_ok_iff] at accepted othersAccepted
  have same : (first.stateAfter earlier).names.reserved =
      (second.stateAfter later).names.reserved := by
    rw [reserved_stateAfter, reserved_stateAfter, words]
  have kept := keeps_named_of_prefix same (vars.map fun v => (v.id, v.name))
  refine ⟨fun v listed => ?_, exists_writesBy accepted (canBeIn_stateAfter earlier)⟩
  have isNamed : (v.id, v.name) ∈ first.namedVars := List.mem_map_of_mem listed
  obtain ⟨name, given⟩ := exists_lookup_named (first.stateAfter earlier) isNamed
  have givenToo := kept _ _ given
  exact ⟨name, (leadsTo_generate first accepted _).keeps _ _ given,
    (leadsTo_generate second othersAccepted _).keeps _ _ givenToo⟩

/-- Two variables that ask for the same name, and one field that holds no id at all. -/
def namesakes (operator : String) (more : List Variable) : Graph where
  nodes := #[
    { Node.blank "assign_block" .statement with
      key := "second", fields := .ofList [("var", .text "v2")]
      values := .ofList [("NAME", some 1)] },
    { Node.blank "logic_compare" .expression with
      key := "comparison", fields := .ofList [("OP", .text operator)]
      values := .ofList [("A", some 2)] },
    { Node.blank "variables_get" .expression with
      key := "first", fields := .ofList [("VAR", .text "v1")] },
    { Node.blank "assign_block" .statement with key := "nameless" }]
  vars := [⟨"v1", "a"⟩, ⟨"v2", "a"⟩] ++ more

def comparing : Generator := ⟨namesakes "EQ" [], .builtin, ⟨"  ", 60, none, ["a2"]⟩⟩

/-- More variables, other settings, and an operator that its handler refuses. -/
def refusing : Generator :=
  ⟨namesakes "?" [⟨"", "a"⟩, ⟨"v1", "b"⟩], .builtin, ⟨"\t", 9, some "1ns", ["a2"]⟩⟩

theorem namesakes_keep_their_names :
    (comparing.graph.validate [3, 0] = .ok () ∧
      comparing.table.check comparing.graph [3, 0] = .ok ()) ∧
    (refusing.graph.validate [0] = .ok () ∧ refusing.table.check refusing.graph [0] = .ok ()) ∧
    (∀ v ∈ comparing.graph.vars, ∃ name,
      ((comparing.generate [3, 0]).outcome (comparing.stateAfter [])).2.names.lookup
        (.variable, v.id) = some name ∧
      ((refusing.generate [0]).outcome (refusing.stateAfter [.freshName "a"])).2.names.lookup
        (.variable, v.id) = some name) ∧
    ∃ naming, comparing.WritesBy [3, 0] (comparing.stateAfter []) naming := by
  have accepted : comparing.graph.validate [3, 0] = .ok () ∧
      comparing.table.check comparing.graph [3, 0] = .ok () := ⟨by cbv, by cbv⟩
  have refusedLater : refusing.graph.validate [0] = .ok () ∧
      refusing.table.check refusing.graph [0] = .ok () := ⟨by cbv, by cbv⟩
  have words : comparing.config.reserved = refusing.config.reserved := rfl
  have extended : comparing.graph.vars <+: refusing.graph.vars := ⟨_, rfl⟩
  exact ⟨accepted, refusedLater,
    variables_keep_their_names words extended [] [.freshName "a"] accepted refusedLater⟩

example : comparing.code [3, 0] = .ok "assign unnamed = X;\n\nassign a3 = a == 0;\n" := by
  cbv

example : refusing.code [0] = .error (.invalidField "comparison" "OP" "?") := by
  cbv

end Generator

end BlockVerilog
