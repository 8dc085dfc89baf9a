import BlockVerilog.Proofs.Handlers.Embedding
import BlockVerilog.Proofs.Pass.WholeLines
import BlockVerilog.Proofs.Related
import BlockVerilog.Proofs.Text.Prefix

/-!
Chains inside of other chains.

A chain that hangs in the bodies of another is printed as whole lines inside of it. Each body that
it stands in puts one more copy of the indentation in front of these lines, and nothing else between
them.
-/

namespace BlockVerilog

open Text

/-- A chain hangs in the bodies of another, so many deep. -/
inductive Graph.Nests (g : Graph) : NodeId → Nat → NodeId → Prop
  | here {head : NodeId} : Nests g head 0 head
  | inBody (id : NodeId) (slot : String) {head child inner : NodeId} {node : Node} {depth : Nat}
      (runs : id ∈ g.running (some head)) (found : g.get? id = some node)
      (printed : slot ∈ node.bodySlots) (holds : node.statements.target? slot = some child)
      (nests : Nests g child depth inner) : Nests g head (depth + 1) inner

namespace Generator

open Pass PassState

variable {gen : Generator}

/-- A computation gives a result on the way from one state to another. -/
def Meets {α : Type} (c : Pass α) (state : PassState) (a : α) (after : PassState) : Prop :=
  ∃ before later, state.LeadsTo before ∧ c.outcome before = (.ok a, later) ∧ later.LeadsTo after

theorem Meets.between {α : Type} {c : Pass α} {state before later after : PassState} {a : α}
    (meets : Meets c before a later) (first : state.LeadsTo before) (last : later.LeadsTo after) :
    Meets c state a after := by
  obtain ⟨begun, ended, leads, ran, leadsOn⟩ := meets
  exact ⟨begun, ended, first.trans leads, ran, leadsOn.trans last⟩

theorem leadsTo_of_outcome {α : Type} {c : Pass α} (goes : c.GoesBySteps)
    {state after : PassState} {a : α} (ran : c.outcome state = (.ok a, after)) :
    state.LeadsTo after := by
  have leads := goes state
  rwa [ran] at leads

/-- Each of the bodies in these slots is given on the way from one state to another. -/
def GivesBodies (gen : Generator) (below : Engine) (id : NodeId) (slots : List String)
    (state : PassState) (bodies : List String) (after : PassState) : Prop :=
  List.Forall₂ (fun slot body => Meets (gen.statements below id slot) state body after) slots bodies

theorem GivesBodies.earlier {below : Engine} {id : NodeId} {slots bodies : List String}
    {state between after : PassState} (gives : gen.GivesBodies below id slots between bodies after)
    (leads : state.LeadsTo between) : gen.GivesBodies below id slots state bodies after :=
  List.Forall₂.imp (fun _ _ meets => meets.between leads (.refl after)) gives

/-- What is asked first gives no bodies, and so those of the rest are the bodies of the whole. -/
theorem exists_bodies_behind {α β : Type} {below : Engine} {id : NodeId} {slots : List String}
    {holds : List String → Prop} {first : Pass β} {rest : β → Pass α} {state after : PassState}
    {a : α} (goes : first.GoesBySteps) (reached : state.IsReached)
    (ran : (first >>= rest).outcome state = (.ok a, after))
    (behind : ∀ answer between, between.IsReached →
      (rest answer).outcome between = (.ok a, after) →
        ∃ bodies, gen.GivesBodies below id slots between bodies after ∧ holds bodies) :
    ∃ bodies, gen.GivesBodies below id slots state bodies after ∧ holds bodies := by
  obtain ⟨answer, between, begun, ran⟩ := exists_of_outcome_bind ran
  have leads := leadsTo_of_outcome goes begun
  obtain ⟨bodies, gives, held⟩ := behind answer between (leads.isReached reached) ran
  exact ⟨bodies, gives.earlier leads, held⟩

section

variable {below : Engine} (lines : EngineYieldsLines below) (goes : EngineGoesBySteps below)
include lines goes

/-- A script is given the bodies that it asks for while it runs. -/
theorem exists_bodies_of_run {α : Type} {id : NodeId} {script : Script α}
    (isLocal : script.IsLocal id) {post : List String → α → Prop} {slots given : List String}
    (prints : script.Prints post slots given) {state after : PassState} {a : α}
    (reached : state.IsReached) (ran : (gen.run below script).outcome state = (.ok a, after)) :
    ∃ bodies, gen.GivesBodies below id slots state bodies after ∧ post (given ++ bodies) a := by
  induction script generalizing state slots given with
  | done b =>
      cases ran
      obtain ⟨rfl, holds⟩ := prints
      exact ⟨[], .nil, by rwa [List.append_nil]⟩
  | fail e => cases ran
  | value asked slot required next inductionHypothesis =>
      apply exists_bodies_behind (goesBySteps_value goes asked slot required) reached ran
      intro text between
      exact inductionHypothesis text (isLocal.2 text) (prints text)
  | statements asked slot next inductionHypothesis =>
      obtain ⟨rfl, localNext⟩ := isLocal
      obtain ⟨later, rfl, printsNext⟩ := prints
      obtain ⟨body, between, begun, ran⟩ := exists_of_outcome_bind ran
      have leads := leadsTo_of_outcome (goesBySteps_statements goes asked slot) begun
      have leadsOn := leadsTo_of_outcome (goesBySteps_run goes (next body)) ran
      obtain ⟨reachedBetween, whole⟩ := statements_yields lines asked slot _ _ _ reached begun
      obtain ⟨bodies, gives, holds⟩ := inductionHypothesis body (localNext body)
        (printsNext body whole) reachedBetween ran
      have meets : Meets (gen.statements below asked slot) state body after :=
        ⟨state, between, .refl state, begun, leadsOn⟩
      refine ⟨body :: bodies, .cons meets (gives.earlier leads), ?_⟩
      rwa [List.append_assoc, List.singleton_append] at holds
  | variableName name next inductionHypothesis =>
      apply exists_bodies_behind (goesBySteps_variableName gen name) reached ran
      intro text between
      exact inductionHypothesis text (isLocal text) (prints text)
  | freshName wanted next inductionHypothesis =>
      apply exists_bodies_behind (goesBySteps_freshName wanted) reached ran
      intro text between
      exact inductionHypothesis text (isLocal text) (prints text)
  | define key text next inductionHypothesis =>
      apply exists_bodies_behind (goesBySteps_define key text) reached ran
      intro isNew between
      exact inductionHypothesis isNew (isLocal isNew) (prints isNew)

end

theorem goesBySteps_statement (id : NodeId) : (gen.statement id).GoesBySteps :=
  goesBySteps_statementAt (engineGoesBySteps_whole gen) id

section

variable (builtin : gen.table = .builtin)
include builtin

/-- A statement prints the chain that hangs in one of its bodies, indented, behind the end of a
line. -/
theorem exists_body_of_statement {id child : NodeId} {node : Node} {slot : String}
    (found : gen.graph.get? id = some node) (printed : slot ∈ node.bodySlots)
    (holds : node.statements.target? slot = some child) {state after : PassState} {text : String}
    (reached : state.IsReached) (ran : (gen.statement id).outcome state = (.ok text, after)) :
    ∃ body front back, Meets (gen.whole.chain child) state body after ∧
      text = front ++ indentLines gen.config.indent body ++ back ∧
      front.toList.getLast? = some '\n' := by
  have lines : EngineYieldsLines gen.whole :=
    engine_yields (builtin ▸ HandlerTable.builtin_makesLines) _
  unfold statement statementAt at ran
  rw [node_eq_pure found, pure_bind] at ran
  cases registered : gen.table.get? node.kind with
  | none =>
      rw [registered] at ran
      cases ran
  | some handler =>
      rw [registered] at ran
      have known := HandlerTable.mem_builtin (builtin ▸ registered)
      cases handler with
      | expression => cases ran
      | statement generate =>
          have isLocal : (generate (gen.site id node)).IsLocal id :=
            Handlers.isLocal_of_mem_builtin known (gen.site id node)
          have prints : (generate (gen.site id node)).Prints Embeds node.bodySlots [] :=
            Handlers.statement_embeds known
          obtain ⟨bodies, gives, embeds⟩ := exists_bodies_of_run lines
            (engineGoesBySteps_whole gen) isLocal prints reached ran
          obtain ⟨indented, listed, before, later, leads, asked, leadsOn⟩ :=
            exists_related_of_mem gives printed
          rw [statements_eq found, holds] at asked
          obtain ⟨body, between, chained, indents⟩ := exists_of_outcome_bind asked
          cases indents
          obtain ⟨front, back, rfl, ended⟩ := embeds _ listed
          exact ⟨body, front, back, ⟨before, _, leads, chained, leadsOn⟩, rfl, ended⟩

omit builtin in
theorem Chained.leadsTo {ids : List NodeId} {state after : PassState} {pieces : List String}
    (chained : gen.Chained ids state pieces after) : state.LeadsTo after := by
  induction chained with
  | nil => exact .refl _
  | cons prints _ inductionHypothesis =>
      exact (leadsTo_of_outcome (goesBySteps_statement _) prints).trans inductionHypothesis

omit builtin in
/-- Each statement of a chain is one of its pieces. -/
theorem Chained.exists_piece {ids : List NodeId} {state after : PassState} {pieces : List String}
    (chained : gen.Chained ids state pieces after) {id : NodeId} (listed : id ∈ ids) :
    ∃ text, Meets (gen.statement id) state text after ∧
      ∃ first rest, pieces = first ++ text :: rest := by
  induction chained with
  | nil => cases listed
  | @cons other ids state between after text pieces prints rest inductionHypothesis =>
      have leads := leadsTo_of_outcome (goesBySteps_statement other) prints
      rcases List.mem_cons.mp listed with rfl | later
      · exact ⟨text, ⟨state, between, .refl state, prints, rest.leadsTo⟩,
          [gen.commentsBefore id], pieces, rfl⟩
      · obtain ⟨found, meets, first, more, rfl⟩ := inductionHypothesis later
        have met := meets.between leads (.refl _)
        exact ⟨found, met, gen.commentsBefore other :: text :: first, more, rfl⟩

/-- A chain prints each chain that hangs in a body of one of its statements, indented, behind whole
lines. -/
theorem exists_body_of_chain {roots : List NodeId} (formed : gen.graph.WellFormed roots)
    {head id child : NodeId} (inside : head < gen.graph.size)
    (runs : id ∈ gen.graph.running (some head)) {node : Node} {slot : String}
    (found : gen.graph.get? id = some node) (printed : slot ∈ node.bodySlots)
    (holds : node.statements.target? slot = some child) {state after : PassState} {text : String}
    (reached : state.IsReached) (ran : (gen.whole.chain head).outcome state = (.ok text, after)) :
    ∃ body outer closing, Meets (gen.whole.chain child) state body after ∧
      text = outer ++ indentLines gen.config.indent body ++ closing ∧ EndsLine outer.toList := by
  have handlers : gen.table.MakesLines := builtin ▸ HandlerTable.builtin_makesLines
  have isLocal : gen.table.IsLocal := builtin ▸ HandlerTable.builtin_isLocal
  obtain ⟨pieces, chained, rfl⟩ := exists_chained isLocal formed inside ran
  have ends := chained.endsLine handlers reached
  obtain ⟨statement, ⟨before, later, leads, stated, leadsOn⟩, first, rest, rfl⟩ :=
    chained.exists_piece runs
  obtain ⟨body, front, back, meets, rfl, ended⟩ :=
    exists_body_of_statement builtin found printed holds (leads.isReached reached) stated
  obtain ⟨line, split⟩ := List.getLast?_eq_some_iff.mp ended
  have opened : EndsLine front.toList := split ▸ endsLine_newline line
  have whole : EndsLine (String.join first).toList :=
    endsLine_join (List.forall_mem_append.mp ends).1
  refine ⟨body, String.join first ++ front, back ++ String.join rest, meets.between leads leadsOn,
    ?_, ?_⟩
  · rw [String.join_append, String.join_cons]
    simp only [String.append_assoc]
  · rw [String.toList_append]
    exact whole.append opened

end

/-- In a text that is made between two states, what is printed of a chain stands as whole lines,
with so many copies of the indentation in front of each. -/
structure StandsIn (gen : Generator) (inner : NodeId) (depth : Nat) (state : PassState)
    (text : String) (after : PassState) (front printed back : String) : Prop where
  meets : Meets (gen.whole.chain inner) state printed after
  text_eq : text = front ++ indentLines (copies depth gen.config.indent) printed ++ back
  opensLine : EndsLine front.toList
  endsLine : EndsLine printed.toList

section

variable {inner : NodeId} {depth : Nat} {state before later after : PassState}
  {text front printed back : String}

/-- One body further out there is one more copy of the indentation. -/
theorem StandsIn.inBody (clean : '\n' ∉ gen.config.indent.toList)
    (stands : gen.StandsIn inner depth before text later front printed back)
    (leads : state.LeadsTo before) (leadsOn : later.LeadsTo after) {outer : String}
    (opened : EndsLine outer.toList) (closing : String) :
    gen.StandsIn inner (depth + 1) state
      (outer ++ indentLines gen.config.indent text ++ closing) after
      (outer ++ indentLines gen.config.indent front) printed
      (indentLines gen.config.indent back ++ closing) where
  meets := stands.meets.between leads leadsOn
  text_eq := by
    have block : EndsLine (indentLines (copies depth gen.config.indent) printed).toList := by
      rw [toList_indentLines]
      exact endsLine_prefixLines stands.endsLine _
    have split : EndsLine (front ++
        indentLines (copies depth gen.config.indent) printed).toList := by
      rw [String.toList_append]
      exact stands.opensLine.append block
    rw [stands.text_eq, indentLines_append _ split, indentLines_append _ stands.opensLine,
      indentLines_copies clean]
    simp only [String.append_assoc]
  opensLine := by
    rw [String.toList_append, toList_indentLines]
    exact opened.append (endsLine_prefixLines stands.opensLine _)
  endsLine := stands.endsLine

/-- The lines of the chain are the lines of the text from some point on, each behind the copies. -/
theorem StandsIn.fullLines_eq (clean : '\n' ∉ gen.config.indent.toList)
    (stands : gen.StandsIn inner depth state text after front printed back) :
    fullLines text.toList =
      fullLines front.toList ++
        (fullLines printed.toList).map ((copies depth gen.config.indent).toList ++ ·) ++
          fullLines back.toList := by
  have block := endsLine_prefixLines stands.endsLine (copies depth gen.config.indent).toList
  rw [stands.text_eq, String.toList_append, String.toList_append, toList_indentLines,
    fullLines_append (stands.opensLine.append block), fullLines_append stands.opensLine,
    fullLines_prefixLines (newline_not_mem_copies clean depth) stands.endsLine]

end

/-- By induction on the bodies that the chain hangs in, from the outermost one. -/
theorem exists_standsIn (builtin : gen.table = .builtin) {roots : List NodeId}
    (formed : gen.graph.WellFormed roots) (clean : '\n' ∉ gen.config.indent.toList)
    {head inner : NodeId} {depth : Nat} (nests : gen.graph.Nests head depth inner)
    (inside : head < gen.graph.size) {state after : PassState} {text : String}
    (reached : state.IsReached) (ran : (gen.whole.chain head).outcome state = (.ok text, after)) :
    ∃ front printed back, gen.StandsIn inner depth state text after front printed back := by
  have handlers : gen.table.MakesLines := builtin ▸ HandlerTable.builtin_makesLines
  induction nests generalizing state after text with
  | @here head =>
      have blocks := ((engine_yields handlers _).chain head _ _ _ reached ran).2
      refine ⟨"", text, "", ⟨state, after, .refl state, ran, .refl after⟩, ?_, endsLine_nil,
        blocks.isBody.endsLine⟩
      rw [indentLines_no_copies, String.empty_append, String.append_empty]
  | @inBody id slot head child inner node depth runs found printed holds _ inductionHypothesis =>
      obtain ⟨body, outer, closing, ⟨begun, ended, leads, asked, leadsOn⟩, rfl, opened⟩ :=
        exists_body_of_chain builtin formed inside runs found printed holds reached ran
      have link : gen.graph.LinksStatement id child :=
        ⟨node, found, Slots.mem_targets_of_target? holds⟩
      obtain ⟨front, printed, back, stands⟩ := inductionHypothesis
        (formed.closed _ _ link.links) (leads.isReached reached) asked
      exact ⟨_, _, _, stands.inBody clean leads leadsOn opened closing⟩

/-- Prefixes of lines compose, go through whole lines one by one, add no line and can be taken off
again. So a chain that hangs in as many bodies as `depth` says is printed as whole lines that begin
with so many copies of the indentation, whatever its lines are. -/
theorem indentation_composes :
    (∀ lead outer first second : List Char, '\n' ∉ lead → '\n' ∉ outer →
      PrefixLaws lead outer first second) ∧
      ∀ (gen : Generator) (roots : List NodeId) (head inner : NodeId) (depth : Nat)
        (state after : PassState) (text : String), gen.table = .builtin →
        gen.graph.validate roots = .ok () → '\n' ∉ gen.config.indent.toList →
        head < gen.graph.size → gen.graph.Nests head depth inner → state.IsReached →
        (gen.whole.chain head).outcome state = (.ok text, after) →
          ∃ front printed back, gen.StandsIn inner depth state text after front printed back ∧
            fullLines text.toList = fullLines front.toList ++
              (fullLines printed.toList).map ((copies depth gen.config.indent).toList ++ ·) ++
                fullLines back.toList := by
  refine ⟨fun lead outer first second clean outerClean => prefix_laws clean outerClean first second,
    fun gen roots head inner depth state after text builtin accepted clean inside nests reached
      ran => ?_⟩
  have formed := Graph.validate_eq_ok_iff.mp accepted
  obtain ⟨front, printed, back, stands⟩ :=
    exists_standsIn builtin formed clean nests inside reached ran
  exact ⟨front, printed, back, stands, stands.fullLines_eq clean⟩

/-- A commented chain behind a delay in an initial block, with an indentation that shows. -/
def settled : Generator where
  graph :=
    { nodes := #[
        { Node.blank "intial" .statement with statements := .ofList [("body", some 1)] },
        { Node.blank "time_block" .statement with statements := .ofList [("arg2", some 2)] },
        { Node.blank "display_block" .statement with
          comment := "settled"
          fields := .ofList [("text", .text "done")]
          next := some 3 },
        Node.blank "finish_block" .statement]
      vars := [] }
  table := .builtin
  config := ⟨". ", 60, none, []⟩

def settledCode : String :=
  "initial begin\n. #1\n. . // settled\n. . $display(\"done\");\n. . $finish;\nend\n"

theorem settled_composes :
    (settled.graph.validate [0] = .ok () ∧ '\n' ∉ ". ".toList ∧ settled.graph.Nests 0 2 2) ∧
      ∃ text after front printed back,
        text = settledCode ∧
        (settled.whole.chain 0).outcome (.initial settled.config) = (.ok text, after) ∧
        settled.StandsIn 2 2 (.initial settled.config) text after front printed back ∧
        fullLines text.toList = fullLines front.toList ++
          (fullLines printed.toList).map ((copies 2 ". ").toList ++ ·) ++
            fullLines back.toList := by
  have accepted : settled.graph.validate [0] = .ok () := by cbv
  have clean : '\n' ∉ ". ".toList := by decide
  have inDelay : settled.graph.Nests 1 1 2 :=
    .inBody 1 "arg2" (by decide) rfl (by decide) (by decide) .here
  have nests : settled.graph.Nests 0 2 2 :=
    .inBody 0 "body" (by decide) rfl (by decide) (by decide) inDelay
  have ran : (settled.whole.chain 0).outcome (.initial settled.config) =
      (.ok settledCode, _) :=
    Prod.ext (by cbv) rfl
  obtain ⟨front, printed, back, stands, lines⟩ :=
    indentation_composes.2 settled [0] 0 2 2 _ _ _ rfl accepted clean (by decide) nests
      (.initial _) ran
  exact ⟨⟨accepted, clean, nests⟩, _, _, front, printed, back, rfl, ran, stands, lines⟩

end Generator

end BlockVerilog
