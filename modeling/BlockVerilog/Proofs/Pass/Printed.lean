import BlockVerilog.Proofs.Pass.Answers
import BlockVerilog.Proofs.Pass.Fate
import BlockVerilog.Proofs.Pass.Roots
import BlockVerilog.Proofs.Pass.Shown

/-!
A pass with a time scale beside the pass without one.

The two give the same texts, which hold the lines of the statements that are printed. They only
differ in a declaration, which the one makes if a statement that delays is among those.
-/

namespace BlockVerilog

open Text

namespace Handlers

/-- The declarations of a pass with a time scale: none, or that of the time scale. -/
def declaredIf (scale : String) : Bool → Declarations
  | false => ∅
  | true => (Declarations.define ∅ timescaleKey (timescaleLine scale)).2

/-- The time scale is declared once. -/
theorem define_declaredIf (scale : String) (declared : Bool) :
    ((declaredIf scale declared).define timescaleKey (timescaleLine scale)).2 =
      declaredIf scale true := by
  cases declared with
  | false => rfl
  | true => rfl

theorem hoistOver_declaredIf (scale : String) (declared : Bool) (body : String) :
    (declaredIf scale declared).hoistOver body =
      if declared then timescaleLine scale ++ "\n\n\n" ++ body else body := by
  cases declared with
  | false => rfl
  | true => rfl

/-- The declaration begins visibly, whatever the time scale is. -/
theorem isBlock_declared (scale : String) {body : String} (block : IsBlock body) :
    IsBlock (timescaleLine scale ++ "\n\n\n" ++ body) := by
  have opened : opens (timescaleLine scale).toList = true := by
    rw [timescaleLine, String.toList_append]
    exact opens_append (by decide) _
  rw [String.append_assoc]
  exact isBlock_append opened (String.toList_append ▸ block.closes.append _)

end Handlers

open Handlers

/-- The same state with other declarations. -/
def PassState.declaring (state : PassState) (declarations : Declarations) : PassState :=
  { state with declarations := declarations }

namespace Pass

variable {α β : Type} {scale : String}

/-- A computation without a time scale beside one that declares it where that is `due`. From each
state with legal names they fail alike, or they give the same result with `post`, and leave states
that differ in the declarations only. -/
def Hoists (scale : String) (due : Bool) (post : α → Prop) (plain timed : Pass α) : Prop :=
  ∀ state declared, state.names.AllLegal →
    match plain.outcome state with
    | (.ok a, after) =>
        (post a ∧ after.names.AllLegal ∧ after.declarations = state.declarations) ∧
          timed.outcome (state.declaring (declaredIf scale declared)) =
            (.ok a, after.declaring (declaredIf scale (declared || due)))
    | (.error e, _) => (timed.outcome (state.declaring (declaredIf scale declared))).1 = .error e

variable {due dueNext : Bool} {post : α → Prop} {postNext : β → Prop}

theorem hoists_pure {a : α} (holds : post a) :
    Hoists scale false post (pure a) (pure a) := fun state declared legal =>
  ⟨⟨holds, legal, rfl⟩, by rw [Bool.or_false]; rfl⟩

theorem hoists_throw (e : PassError) : Hoists scale due post (throw e) (throw e) :=
  fun _ _ _ => rfl

theorem Hoists.cases {plain timed : Pass α} (hoists : Hoists scale due post plain timed)
    {state : PassState} (declared : Bool) (legal : state.names.AllLegal) :
    (∃ e after timedAfter, plain.outcome state = (.error e, after) ∧
        timed.outcome (state.declaring (declaredIf scale declared)) = (.error e, timedAfter)) ∨
      ∃ a after, plain.outcome state = (.ok a, after) ∧
        (post a ∧ after.names.AllLegal ∧ after.declarations = state.declarations) ∧
        timed.outcome (state.declaring (declaredIf scale declared)) =
          (.ok a, after.declaring (declaredIf scale (declared || due))) := by
  have ends := hoists state declared legal
  rcases ran : plain.outcome state with ⟨e | a, after⟩
  · rw [ran] at ends
    exact .inl ⟨e, after, _, rfl, Prod.ext ends rfl⟩
  · rw [ran] at ends
    exact .inr ⟨a, after, rfl, ends⟩

theorem hoists_bind {plain timed : Pass α} {next nextTimed : α → Pass β}
    (first : Hoists scale due post plain timed)
    (later : ∀ a, post a → Hoists scale dueNext postNext (next a) (nextTimed a)) :
    Hoists scale (due || dueNext) postNext (plain >>= next) (timed >>= nextTimed) := by
  intro state declared legal
  obtain ⟨e, _, _, ran, timedRan⟩ | ⟨a, between, ran, ⟨holds, legalBetween, kept⟩, timedRan⟩ :=
    first.cases declared legal
  · rw [outcome_bind_of_error ran, outcome_bind_of_error timedRan]
  · rw [outcome_bind_of_ok ran, outcome_bind_of_ok timedRan, ← Bool.or_assoc, ← kept]
    exact later a holds between (declared || due) legalBetween

/-- Where the first part declares all that is due. -/
theorem hoists_bind_left {plain timed : Pass α} {next nextTimed : α → Pass β}
    (first : Hoists scale due post plain timed)
    (later : ∀ a, post a → Hoists scale false postNext (next a) (nextTimed a)) :
    Hoists scale due postNext (plain >>= next) (timed >>= nextTimed) :=
  Bool.or_false due ▸ hoists_bind first later

theorem Hoists.mono {weaker : α → Prop} {plain timed : Pass α}
    (hoists : Hoists scale due post plain timed) (implies : ∀ a, post a → weaker a) :
    Hoists scale due weaker plain timed := by
  intro state declared legal
  have ran := hoists state declared legal
  revert ran
  rcases plain.outcome state with ⟨e | a, after⟩
  · exact id
  · exact fun ran => ⟨⟨implies a ran.1.1, ran.1.2⟩, ran.2⟩

/-- After the declaration of the time scale, nothing more is due. -/
theorem hoists_define {plain timed : Pass α} (hoists : Hoists scale due post plain timed) :
    Hoists scale true post plain
      (Generator.define timescaleKey (timescaleLine scale) >>= fun _ => timed) := by
  intro state declared legal
  have declares : (Generator.define timescaleKey (timescaleLine scale)).outcome
      (state.declaring (declaredIf scale declared)) =
        (.ok _, state.declaring (declaredIf scale true)) :=
    Prod.ext rfl (congrArg state.declaring (define_declaredIf scale declared))
  rw [outcome_bind_of_ok declares, Bool.or_true]
  exact hoists state true legal

end Pass

/-- Whether there is a statement with an id that needs a time scale. -/
def Graph.delays (g : Graph) (entry : Printed) : Bool := (g.get? entry.id).any Node.delays

theorem Graph.any_delays_inBody (g : Graph) (entries : List Printed) :
    (entries.map Printed.inBody).any g.delays = entries.any g.delays := List.any_map

namespace Generator

open Pass

/-- The same generation with a time scale. -/
def timed (gen : Generator) (scale : String) : Generator :=
  gen.under { gen.config with timescale := some scale }

@[simp] theorem timed_graph (gen : Generator) (scale : String) :
    (gen.timed scale).graph = gen.graph := rfl

@[simp] theorem timed_table (gen : Generator) (scale : String) :
    (gen.timed scale).table = gen.table := rfl

variable {gen : Generator} {scale : String}

/-- An engine without a time scale beside one with it. -/
structure EngineHoists (gen : Generator) (scale : String) (printed : NodeId → List Printed)
    (below other : Engine) : Prop where
  expression : ∀ id, Hoists scale false (fun given => given.all (fun e => solid e.1) = true)
    (below.expression id) (other.expression id)
  chain : ∀ id, Hoists scale ((printed id).any gen.graph.delays) (gen.Shows (printed id))
    (below.chain id) (other.chain id)

theorem hoists_node_bind {α : Type} {due : Bool} {post : α → Prop} {id : NodeId}
    {next nextTimed : Node → Pass α}
    (later : ∀ node, gen.graph.get? id = some node →
      Hoists scale due post (next node) (nextTimed node)) :
    Hoists scale due post (gen.node id >>= next) ((gen.timed scale).node id >>= nextTimed) := by
  change Hoists _ _ _ (gen.node id >>= next) (gen.node id >>= nextTimed)
  unfold Generator.node
  cases found : gen.graph.get? id with
  | none => exact hoists_throw _
  | some node => exact later node found

theorem hoists_variableName (id : String) :
    Hoists scale false (fun name => solid name = true) (gen.variableName id)
      ((gen.timed scale).variableName id) := by
  intro state declared legal
  let requested := (gen.graph.variableName? id).getD id
  have allocated : (state.nameVariable id requested).2.names.AllLegal := legal.allocate _ _
  have named := allocated _ _ (state.lookup_nameVariable id _)
  refine ⟨⟨solid_of_isLegal named, allocated, rfl⟩, ?_⟩
  rw [Bool.or_false]
  rfl

section

variable {printed : NodeId → List Printed} {below other : Engine}
  (engines : gen.EngineHoists scale printed below other)
include engines

theorem hoists_value (id : NodeId) (slot : String) (required : Precedence) :
    Hoists scale false (fun text => text.all solid = true) (gen.value below id slot required)
      ((gen.timed scale).value other id slot required) := by
  refine hoists_node_bind fun node found => ?_
  cases node.values.target? slot with
  | none => exact hoists_pure rfl
  | some child =>
      refine hoists_bind (engines.expression child) fun given visible => ?_
      cases given with
      | none => exact hoists_pure rfl
      | some given =>
          apply hoists_pure
          split
          · rfl
          · exact solid_parenthesize visible _ _

theorem hoists_statements {id : NodeId} {node : Node} (found : gen.graph.get? id = some node)
    (slot : String) :
    Hoists scale ((printedIn printed node slot).any gen.graph.delays)
      (gen.ShowsBody (printedIn printed node slot)) (gen.statements below id slot)
      ((gen.timed scale).statements other id slot) := by
  have foundTimed : (gen.timed scale).graph.get? id = some node := found
  unfold Generator.statements
  rw [node_eq_pure found, node_eq_pure foundTimed, pure_bind, pure_bind, printedIn]
  cases node.statements.target? slot with
  | none => exact hoists_pure ⟨.inl rfl, fun _ => List.nil_sublist _⟩
  | some head =>
      rw [Option.toList_some, List.flatMap_singleton, Graph.any_delays_inBody]
      exact hoists_bind_left (engines.chain head) fun text shows => hoists_pure shows.indented

/-- A script is given the bodies that it asks for, and all that is printed in them. -/
theorem hoists_run {α : Type} {made : α → Prop} {post : List String → α → Prop} {id : NodeId}
    {node : Node} (found : gen.graph.get? id = some node) {script : Script α}
    {slots before : List String} (suits : script.Suits id made post slots before) :
    Hoists scale ((slots.flatMap (printedIn printed node)).any gen.graph.delays)
      (fun a => made a ∧ ∃ bodies,
        List.Forall₂ (fun slot body => gen.ShowsBody (printedIn printed node slot) body)
          slots bodies ∧ post (before ++ bodies) a)
      (gen.run below script) ((gen.timed scale).run other script) := by
  obtain ⟨isLocal, readOnly, makes, prints⟩ := suits
  induction script generalizing slots before with
  | done a =>
      obtain ⟨rfl, holds⟩ := prints
      exact hoists_pure ⟨makes, [], .nil, by rwa [List.append_nil]⟩
  | fail e => exact hoists_throw e
  | value asked slot required next inductionHypothesis =>
      obtain ⟨rfl, localNext⟩ := isLocal
      refine hoists_bind (hoists_value engines asked slot required) fun text visible => ?_
      exact inductionHypothesis text (localNext text) (readOnly text) (makes text visible)
        (prints text)
  | statements asked slot next inductionHypothesis =>
      obtain ⟨rfl, localNext⟩ := isLocal
      obtain ⟨later, rfl, printsNext⟩ := prints
      rw [List.flatMap_cons, List.any_append]
      refine hoists_bind (hoists_statements engines found slot) fun body shows => ?_
      refine (inductionHypothesis body (localNext body) (readOnly body)
        (makes body shows.whole) (printsNext body shows.whole)).mono ?_
      rintro a ⟨made, bodies, all, holds⟩
      refine ⟨made, body :: bodies, .cons shows all, ?_⟩
      rwa [List.append_assoc, List.singleton_append] at holds
  | variableName name next inductionHypothesis =>
      refine hoists_bind (hoists_variableName name) fun given visible => ?_
      exact inductionHypothesis given (isLocal given) (readOnly.2 given) (makes given visible)
        (prints given)
  | freshName wanted next => exact readOnly.elim
  | define key text next => exact readOnly.elim

variable (builtin : gen.table = .builtin) (timeless : gen.config.timescale = none)
include builtin timeless

theorem hoists_expressionAt (id : NodeId) :
    Hoists scale false (fun given => given.all (fun e => solid e.1) = true)
      (gen.expressionAt below id) ((gen.timed scale).expressionAt other id) := by
  refine hoists_node_bind fun node found => ?_
  rw [timed_table]
  by_cases enabled : node.enabled = true
  · rw [if_pos enabled, if_pos enabled]
    cases registered : gen.table.get? node.kind with
    | none => exact hoists_throw _
    | some handler =>
        have known := HandlerTable.mem_builtin (builtin ▸ registered)
        cases handler with
        | statement => exact hoists_throw _
        | expression generate =>
            have suits : (generate (gen.site id node)).Suits id _ _ _ _ :=
              expression_suits timeless known
            have same : generate ((gen.timed scale).site id node) = generate (gen.site id node) :=
              expression_under (gen.timed scale).config (gen.site id node) known
            dsimp only
            rw [same]
            exact hoists_bind (hoists_run engines found suits) fun given ran => hoists_pure ran.1
  · rw [if_neg enabled, if_neg enabled]
    exact hoists_pure rfl

theorem hoists_statementAt (id : NodeId) :
    Hoists scale ((gen.graph.printedAt printed id).any gen.graph.delays)
      (fun text => IsBlock text ∧ gen.Shows (gen.graph.printedAt printed id) text)
      (gen.statementAt below id) ((gen.timed scale).statementAt other id) := by
  refine hoists_node_bind fun node found => ?_
  have due : (gen.graph.printedAt printed id).any gen.graph.delays =
      (node.delays || (node.bodySlots.flatMap (printedIn printed node)).any gen.graph.delays) := by
    rw [printedAt_eq found, List.any_cons, Graph.delays, found, Option.any_some]
  rw [timed_table, due]
  cases registered : gen.table.get? node.kind with
  | none => exact hoists_throw _
  | some handler =>
      have known := HandlerTable.mem_builtin (builtin ▸ registered)
      cases handler with
      | expression => exact hoists_throw _
      | statement generate =>
          have suits : (generate (gen.site id node)).Suits id _ _ node.bodySlots _ :=
            statement_suits timeless known
          have same : generate ((gen.timed scale).site id node) = if node.delays then
              .define timescaleKey (timescaleLine scale) fun _ => generate (gen.site id node)
            else generate (gen.site id node) :=
            statement_under (gen.timed scale).config (gen.site id node) known timeless rfl
          have shown : Hoists scale
              ((node.bodySlots.flatMap (printedIn printed node)).any gen.graph.delays)
              (fun text => IsBlock text ∧ gen.Shows (gen.graph.printedAt printed id) text)
              (gen.run below (generate (gen.site id node)))
              ((gen.timed scale).run other (generate (gen.site id node))) := by
            apply (hoists_run engines found suits).mono
            rintro text ⟨block, bodies, shows, carries⟩
            exact ⟨block, shows_of_carries found block shows carries⟩
          dsimp only
          rw [same]
          cases node.delays with
          | false =>
              rw [if_neg Bool.false_ne_true, Bool.false_or]
              exact shown
          | true =>
              rw [if_pos rfl, Bool.true_or]
              exact hoists_define shown

theorem hoists_commented (id : NodeId) :
    Hoists scale (([id].filter gen.graph.isEnabled).flatMap (gen.graph.printedAt printed)
        |>.any gen.graph.delays)
      (gen.Shows (([id].filter gen.graph.isEnabled).flatMap (gen.graph.printedAt printed)))
      (gen.commented below id) ((gen.timed scale).commented other id) := by
  refine hoists_node_bind fun node found => ?_
  have enabled := Graph.isEnabled_of_get? found
  cases on : node.enabled with
  | true =>
      rw [List.filter_cons_of_pos (enabled.trans on), List.filter_nil, List.flatMap_singleton]
      refine hoists_bind_left (hoists_statementAt engines builtin timeless id) fun text shown => ?_
      exact hoists_pure (shown.2.comment shown.1 id)
  | false =>
      rw [List.filter_cons_of_neg (by simp [enabled, on])]
      exact hoists_pure shows_nil

theorem hoists_commentedAll (ids : List NodeId) :
    Hoists scale ((ids.filter gen.graph.isEnabled).flatMap (gen.graph.printedAt printed)
        |>.any gen.graph.delays)
      (gen.Shows ((ids.filter gen.graph.isEnabled).flatMap (gen.graph.printedAt printed)))
      (gen.commentedAll below ids) ((gen.timed scale).commentedAll other ids) := by
  induction ids with
  | nil => exact hoists_pure shows_nil
  | cons id rest inductionHypothesis =>
      have split : (id :: rest).filter gen.graph.isEnabled =
          [id].filter gen.graph.isEnabled ++ rest.filter gen.graph.isEnabled :=
        List.filter_append [id] rest
      rw [split, List.flatMap_append, List.any_append]
      refine hoists_bind (hoists_commented engines builtin timeless id) fun first shows => ?_
      exact hoists_bind_left inductionHypothesis fun more showsMore =>
        hoists_pure (shows.append showsMore)

theorem hoists_chainAt (head : NodeId) :
    Hoists scale
      (((gen.graph.running (some head)).flatMap (gen.graph.printedAt printed)).any gen.graph.delays)
      (gen.Shows ((gen.graph.running (some head)).flatMap (gen.graph.printedAt printed)))
      (gen.chainAt below head) ((gen.timed scale).chainAt other head) := by
  have running : gen.graph.running (some head) =
      (gen.graph.chain head).1.filter gen.graph.isEnabled := by simp [Graph.running]
  rw [running]
  unfold chainAt
  rw [timed_graph]
  rcases gen.graph.chain head with ⟨ids, ends⟩
  refine hoists_bind_left (hoists_commentedAll engines builtin timeless ids) fun text shows => ?_
  cases ends with
  | true => exact hoists_pure shows
  | false => exact hoists_throw _

end

section

variable (builtin : gen.table = .builtin) (timeless : gen.config.timescale = none)
include builtin timeless

theorem hoists_engine (depth : Nat) :
    gen.EngineHoists scale (gen.graph.printedFrom depth) (gen.engine depth)
      ((gen.timed scale).engine depth) := by
  induction depth with
  | zero => exact ⟨fun _ => hoists_throw _, fun _ => hoists_throw _⟩
  | succ depth inductionHypothesis =>
      rw [engine_succ, engine_succ]
      exact ⟨hoists_expressionAt inductionHypothesis builtin timeless,
        hoists_chainAt inductionHypothesis builtin timeless⟩

theorem hoists_root (id : NodeId) :
    Hoists scale ((gen.graph.printed [id]).any gen.graph.delays)
      (gen.Shows (gen.graph.printed [id])) (gen.root id) ((gen.timed scale).root id) := by
  have engines : gen.EngineHoists scale (gen.graph.printedFrom gen.graph.size) gen.whole
      (gen.timed scale).whole := hoists_engine builtin timeless gen.graph.size
  refine hoists_node_bind fun node found => ?_
  have isStatement : gen.graph.isStatement id = decide (node.shape = .statement) := by
    rw [Graph.isStatement, found, Option.any_some]
  cases shape : node.shape with
  | statement =>
      rw [Graph.printed, List.filter_cons_of_pos (by simp [isStatement, shape]), List.filter_nil,
        List.flatMap_singleton]
      exact engines.chain id
  | expression =>
      rw [Graph.printed, List.filter_cons_of_neg (by simp [isStatement, shape]), List.filter_nil]
      refine hoists_bind (engines.expression id) fun given visible => ?_
      cases given with
      | none => exact hoists_pure shows_nil
      | some given =>
          apply hoists_pure
          split
          · exact shows_nil
          · have block : IsBlock (given.1 ++ ";\n") :=
              isBlock_of_closing (opens_of_solid visible) (by decide)
            rw [String.append_assoc]
            exact (shows_of_block block).comment block id

/-- The texts of roots together show what is printed. -/
theorem hoists_rootTexts (roots : List NodeId) :
    Hoists scale ((gen.graph.printed roots).any gen.graph.delays)
      (fun texts => (∀ text ∈ texts, IsBlock text) ∧
        gen.Shows (gen.graph.printed roots) ("\n".intercalate texts))
      (gen.rootTexts roots) ((gen.timed scale).rootTexts roots) := by
  induction roots with
  | nil => exact hoists_pure ⟨by simp, shows_nil⟩
  | cons id rest inductionHypothesis =>
      have split : gen.graph.printed (id :: rest) =
          gen.graph.printed [id] ++ gen.graph.printed rest := by
        rw [Graph.printed, ← List.singleton_append, List.filter_append, List.flatMap_append]
        rfl
      rw [split, List.any_append]
      refine hoists_bind (hoists_root builtin timeless id) fun first shows => ?_
      refine hoists_bind_left inductionHypothesis fun more ⟨blocks, showsMore⟩ => hoists_pure ?_
      split
      next empty =>
        rw [shows.nonempty empty, List.nil_append]
        exact ⟨blocks, showsMore⟩
      next nonempty =>
        have block : IsBlock first := shows.blocks.resolve_left nonempty
        refine ⟨List.forall_mem_cons.mpr ⟨block, blocks⟩, ?_⟩
        cases more with
        | nil =>
            rw [showsMore.nonempty rfl, List.append_nil, String.intercalate_singleton]
            exact shows
        | cons next later =>
            rw [List.forall_mem_cons] at blocks
            rw [String.intercalate_cons_cons]
            exact shows.apart block showsMore (blocks.1.intercalate blocks.2)

omit builtin timeless in
theorem declaring_begun : gen.begun.declaring (declaredIf scale false) = gen.begun := by
  rw [declaredIf, ← gen.declarations_begun]
  rfl

omit builtin timeless in
/-- Below its declaration, what is printed shows the same. -/
theorem Shows.declared {entries : List Printed} {body : String} (shows : gen.Shows entries body)
    (scale : String) :
    gen.Shows entries (if entries.any gen.graph.delays then
      timescaleLine scale ++ "\n\n\n" ++ body else body) := by
  split
  next due =>
    have whole := isBlock_declared scale (shows.isBlock_of_any due)
    refine ⟨.inr whole, fun empty => absurd empty whole.ne_empty, fun clean => ?_⟩
    have newline : (timescaleLine scale ++ "\n\n\n" ++ body).toList =
        (timescaleLine scale ++ "\n\n").toList ++ '\n' :: body.toList := by simp
    rw [newline, fullLines_append_newline]
    exact (shows.lines clean).trans (List.sublist_append_right _ _)
  next => exact shows

/-- Two passes give the same body, or fail alike. The one with a time scale puts its declaration in
front of the body if a statement that delays is printed. -/
theorem code_timed (roots : List NodeId) :
    (∃ e, gen.code roots = .error e ∧ (gen.timed scale).code roots = .error e) ∨
      ∃ body, gen.Shows (gen.graph.printed roots) body ∧ gen.code roots = .ok (tidied body) ∧
        (gen.timed scale).code roots = .ok (tidied
          (if (gen.graph.printed roots).any gen.graph.delays then
            timescaleLine scale ++ "\n\n\n" ++ body
          else body)) := by
  have same : (gen.timed scale).precheck roots = gen.precheck roots := rfl
  cases checked : gen.precheck roots with
  | error e =>
      have refused : gen.code roots = .error e :=
        congrArg Prod.fst (outcome_generate_of_error checked (.initial gen.config))
      have refusedTimed : (gen.timed scale).code roots = .error e :=
        congrArg Prod.fst (outcome_generate_of_error (same.trans checked) _)
      exact .inl ⟨e, refused, refusedTimed⟩
  | ok =>
      have legal : gen.begun.names.AllLegal := allLegal_named _ _
      have hoists : Hoists scale _ _ (gen.rootTexts roots) ((gen.timed scale).rootTexts roots) :=
        hoists_rootTexts builtin timeless roots
      have begun : (gen.timed scale).begun = gen.begun := rfl
      rw [code_eq_of_accepted checked, code_eq_of_accepted (same.trans checked), begun]
      have ends := hoists.cases false legal
      rw [declaring_begun, Bool.false_or] at ends
      obtain ⟨e, _, _, ran, timedRan⟩ | ⟨texts, after, ran, ⟨⟨_, shows⟩, _, kept⟩, timedRan⟩ := ends
      · rw [outcome_bind_of_error ran, outcome_bind_of_error timedRan]
        exact .inl ⟨e, rfl, rfl⟩
      · rw [outcome_bind_of_ok ran, outcome_bind_of_ok timedRan]
        refine .inr ⟨"\n".intercalate texts, shows, congrArg Except.ok ?_, congrArg Except.ok ?_⟩
        · rw [finish, kept, gen.declarations_begun]
          rfl
        · rw [← hoistOver_declaredIf]
          rfl

end

end Generator

end BlockVerilog
