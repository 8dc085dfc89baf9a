import BlockVerilog.Proofs.Names.State
import BlockVerilog.Proofs.Pass.Answers
import BlockVerilog.Proofs.Reading.Answer
import BlockVerilog.Proofs.Reading.Growth
import BlockVerilog.Proofs.Reading.Meaning
import BlockVerilog.Proofs.Reading.Reader

/-!
A generated expression reads back as the tree of its node.

Generation names variables as it goes, so that what it prints is compared with the tree under the
names of a later state. Names are kept from state to state, and so the comparison holds from the
end of a step on.
-/

namespace BlockVerilog.Reading

open Relation BlockVerilog.Graph Pass PassState

/-- The name of a variable in a state, as a word. -/
def nameIn (state : PassState) (id : String) : Word :=
  .ofText ((state.names.lookup (.variable, id)).getD "")

theorem nameIn_text {state : PassState} {id name : String}
    (given : state.names.lookup (.variable, id) = some name) (legal : Names.IsLegal name) :
    (nameIn state id).text = name := by
  rw [nameIn, given]
  exact Word.ofText_text (isWord_of_isLegal legal)

section

variable {α β : Type}

/-- A computation succeeds with what it should give under the names of any later state. -/
def Yields (c : Pass α) (state : PassState) (result : (String → Word) → α) : Prop :=
  c.Ends state
    (fun a after => after.names.AllLegal ∧ state.Keeps after ∧
      ∀ later, after.Keeps later → a = result (nameIn later))
    fun _ _ => False

theorem yields_pure {a : α} {state : PassState} {result : (String → Word) → α}
    (legal : state.names.AllLegal)
    (same : ∀ later, state.Keeps later → a = result (nameIn later)) :
    Yields (pure a) state result := ends_pure.mpr ⟨legal, .refl state, same⟩

theorem yields_bind {c : Pass α} {f : α → Pass β} {state : PassState}
    {first : (String → Word) → α} {result : (String → Word) → β} (begins : Yields c state first)
    (goesOn : ∀ a after, after.names.AllLegal → state.Keeps after →
      (∀ later, after.Keeps later → a = first (nameIn later)) → Yields (f a) after result) :
    Yields (c >>= f) state result := by
  refine ends_bind.mpr (begins.mono (fun a after ⟨legal, keeps, same⟩ => ?_) fun _ _ => id)
  refine (goesOn a after legal keeps same).mono (fun b last ⟨legal, keepsOn, sameAgain⟩ => ?_)
    fun _ _ => id
  exact ⟨legal, keeps.trans keepsOn, sameAgain⟩

end

variable {gen : Generator} {id : NodeId} {node : Node} {state : PassState} {below : Engine}

/-- A variable gets the name that it has from then on. -/
theorem yields_variableName (legal : state.names.AllLegal) (name : String) :
    Yields (gen.variableName name) state fun names => (names name).text := by
  let requested := (gen.graph.variableName? name).getD name
  have legalAfter : (state.nameVariable name requested).2.names.AllLegal :=
    legal.allocate (.variable, name) requested
  have given := lookup_nameVariable state name requested
  refine ends_bind.mpr (ends_get.mpr (ends_bind.mpr (ends_set.mpr (ends_pure.mpr
    ⟨legalAfter, keeps_nameVariable state name requested, fun later keeps => ?_⟩))))
  exact (nameIn_text (keeps _ _ given) (legalAfter _ _ given)).symm

theorem yields_value (found : gen.graph.get? id = some node) {trees : (String → Word) →
      NodeId → Option Tree} (legal : state.names.AllLegal) (slot : String) (required : Precedence)
    (child : ∀ target, node.values.target? slot = some target →
      Yields (below.expression target) state fun names =>
        (trees names target).map Tree.expression) :
    Yields (gen.value below id slot required) state fun names =>
      printed (fun slot => (node.values.target? slot).bind (trees names)) slot required := by
  unfold Generator.value
  simp only [Generator.node_eq_pure found, pure_bind, printed]
  cases holds : node.values.target? slot with
  | none => exact yields_pure legal fun _ _ => rfl
  | some target =>
      apply yields_bind (child target holds)
      intro given after legal _ same
      rcases given with _ | ⟨text, level⟩
      · apply yields_pure legal
        intro later keeps
        have nothing := Option.map_eq_none_iff.mp (same later keeps).symm
        simp [nothing]
      · apply yields_pure legal
        intro later keeps
        obtain ⟨tree, grown, printedAs⟩ := Option.map_eq_some_iff.mp (same later keeps).symm
        obtain ⟨rfl, rfl⟩ := Prod.mk.inj printedAs
        simp [grown, tree.text_ne_empty, Tree.within]

/-- A script that asks for expressions and names gives its answer to them. -/
theorem yields_run {α : Type} {script : Script α} {values : (String → Word) → String →
      Precedence → Option String} {result : (String → Word) → α} (isLocal : script.IsLocal id)
    (legal : state.names.AllLegal)
    (slots : ∀ after, after.names.AllLegal → ∀ slot required,
      Yields (gen.value below id slot required) after fun names => values names slot required)
    (answers : ∀ later, state.Keeps later →
      script.answer (values (nameIn later)) (fun name => (nameIn later name).text) =
        some (result (nameIn later))) :
    Yields (gen.run below script) state result := by
  induction script generalizing state with
  | done a =>
      exact yields_pure legal fun later keeps => Option.some.inj (answers later keeps)
  | fail e => cases answers state (.refl state)
  | value asked slot required next inductionHypothesis =>
      obtain ⟨rfl, later⟩ := isLocal
      apply yields_bind (slots state legal slot required)
      intro text after legal keeps same
      apply inductionHypothesis text (later text) legal
      intro last keepsOn
      rw [same last keepsOn]
      exact answers last (keeps.trans keepsOn)
  | statements asked slot next _ => cases answers state (.refl state)
  | variableName name next inductionHypothesis =>
      apply yields_bind (yields_variableName legal name)
      intro text after legal keeps same
      apply inductionHypothesis text (isLocal text) legal
      intro last keepsOn
      rw [same last keepsOn]
      exact answers last (keeps.trans keepsOn)
  | freshName wanted next _ => cases answers state (.refl state)
  | define key text next _ => cases answers state (.refl state)

/-- An engine that may nest as deep as an expression leads to nodes prints its tree. -/
theorem engine_yields (builtin : gen.table = .builtin) {depth : Nat}
    (isExpression : IsExpression gen.graph id)
    (enough : extent gen.graph.LinksValue gen.graph.size id ≤ depth)
    (legal : state.names.AllLegal) :
    Yields ((gen.engine depth).expression id) state fun names =>
      (treeWithin gen.graph names depth id).map Tree.expression := by
  induction depth generalizing id state with
  | zero =>
      have positive : 0 < extent gen.graph.LinksValue gen.graph.size id :=
        extent_pos isExpression.lt_size
      omega
  | succ depth inductionHypothesis =>
      obtain ⟨node, found⟩ : ∃ node, gen.graph.get? id = some node :=
        ⟨_, get?_eq_some isExpression.lt_size⟩
      rw [Generator.engine_succ]
      change Yields (gen.expressionAt (gen.engine depth) id) state _
      cases on : node.enabled with
      | false =>
          rw [Generator.expressionAt_of_disabled found on]
          apply yields_pure legal
          intro later _
          simp [treeWithin_succ _ depth found, on]
      | true =>
          obtain ⟨form, known⟩ := isExpression.known id node .refl found on
          obtain ⟨handler, registered, generate, rfl, prints⟩ :=
            handler_of_form (gen.site id node) known
          have isLocal : (Handler.expression generate).IsLocal :=
            HandlerTable.builtin_isLocal _ _ registered
          rw [Generator.expressionAt_of_registered found on (builtin ▸ registered)]
          -- what hangs in the node yields the trees that are one link less deep
          have slots : ∀ after, after.names.AllLegal → ∀ slot required,
              Yields (gen.value (gen.engine depth) id slot required) after fun names =>
                printed (fun slot => (node.values.target? slot).bind
                  (treeWithin gen.graph names depth)) slot required := by
            intro after legal slot required
            apply yields_value found legal slot required
            intro target holds
            have link := IsExpression.links_of_target? found holds
            have shrinks := isExpression.extent_lt link
            exact inductionHypothesis (isExpression.child link) (by omega) legal
          have body : Yields (gen.run (gen.engine depth) (generate (gen.site id node))) state
              fun names => (form.tree names fun slot => (node.values.target? slot).bind
                (treeWithin gen.graph names depth)).expression :=
            yields_run (isLocal (gen.site id node)) legal slots
              fun later _ => prints (nameIn later) _
          apply yields_bind body
          intro given after legal _ same
          apply yields_pure legal
          intro later keeps
          rw [same later keeps]
          simp [treeWithin_succ _ depth found, on, known]

/-- The expression of an enabled node is the printed tree that the node grows into. -/
theorem expression_printed (builtin : gen.table = .builtin)
    (found : gen.graph.get? id = some node) (on : node.enabled = true)
    (isExpression : IsExpression gen.graph id) (reached : state.IsReached) :
    ∃ after tree,
      (gen.whole.expression id).outcome state = (.ok (some (tree.text, tree.level)), after) ∧
      Grows gen.graph (nameIn after) id (some tree) := by
  have enough : extent gen.graph.LinksValue gen.graph.size id ≤ gen.graph.size :=
    extent_le_size id
  have yields : Yields (gen.whole.expression id) state _ :=
    engine_yields builtin isExpression enough reached.allLegal
  unfold Yields Ends at yields
  rcases ended : (gen.whole.expression id).outcome state with ⟨e | given, after⟩
  · rw [ended] at yields
    exact yields.elim
  · rw [ended] at yields
    obtain ⟨_, _, same⟩ := yields
    obtain ⟨tree, grown, grows⟩ := isExpression.grows_some found on enough (nameIn after)
    have printed : given = some tree.expression := by
      rw [same after (.refl after)]
      exact congrArg (Option.map Tree.expression) grown
    exact ⟨after, tree, by rw [printed]; rfl, grows⟩

/-- The expression of a node is a text that the grammar takes up whole, as the tree that the node
grows into and as no other. Only what chains is grouped to the left, which changes no value. -/
structure ReadsBack (gen : Generator) (id : NodeId) (state after : PassState) (text : String)
    (level : Precedence) (tree : Tree) (tokens : List Token) : Prop where
  printed : (gen.whole.expression id).outcome state = (.ok (some (text, level)), after)
  grows : ∀ grown, Grows gen.graph (nameIn after) id grown ↔ grown = some tree
  lexed : lex text.toList = some tokens
  phrase : Phrase level tokens tree.regrouped
  only : ∀ other, Phrase .none tokens other ↔ other = tree.regrouped
  grouped : tree.IsLeftGrouped → tree.regrouped = tree
  value : ∀ (width : Nat) (meaning : Meaning width),
    meaning.value tree.regrouped = meaning.value tree

/-- The expression of an enabled node reads back as its tree. -/
theorem expression_reads_back (builtin : gen.table = .builtin)
    (found : gen.graph.get? id = some node) (on : node.enabled = true)
    (isExpression : IsExpression gen.graph id) (reached : state.IsReached) :
    ∃ after text level tree tokens, ReadsBack gen id state after text level tree tokens := by
  obtain ⟨after, tree, printed, grows⟩ :=
    expression_printed builtin found on isExpression reached
  refine ⟨after, tree.text, tree.level, tree, tree.tokens, ?_⟩
  constructor
  case printed => exact printed
  case grows => exact fun grown => ⟨fun again => again.unique grows, fun same => same ▸ grows⟩
  case lexed => exact tree.lex_text
  case phrase => exact tree.isPhrase.alone
  case only => exact tree.phrase_tokens_iff
  case grouped => exact Tree.regrouped_of_isLeftGrouped
  case value => exact fun _ meaning => meaning.value_regrouped tree

/-- The difference of a variable and a sum, which adds a disabled number to a negative one. -/
def difference : Generator where
  graph :=
    { nodes := #[
        { Node.blank "math_arithmetic" .expression with
          fields := .ofList [("OP", .text "MINUS")]
          values := .ofList [("A", some 1), ("B", some 2)] },
        { Node.blank "variables_get" .expression with
          key := "counter", fields := .ofList [("VAR", .text "count")] },
        { Node.blank "math_arithmetic" .expression with
          key := "sum", fields := .ofList [("OP", .text "ADD")]
          values := .ofList [("A", some 3), ("B", some 4)] },
        { Node.blank "math_number" .expression with
          key := "old", enabled := false
          fields := .ofList [("NUM", .number (.finite false 7881299347898368 1024))] },
        { Node.blank "math_number" .expression with
          key := "five"
          fields := .ofList [("NUM", .number (.finite true 5629499534213120 1024))] }]
      vars := [] }
  table := .builtin
  config := .standard

theorem difference_reads_back :
    (difference.table = .builtin ∧
      (∃ node, difference.graph.get? 0 = some node ∧ node.enabled = true) ∧
      IsExpression difference.graph 0 ∧ (PassState.initial .standard).IsReached) ∧
    ∃ after text level tree tokens,
      ReadsBack difference 0 (.initial .standard) after text level tree tokens := by
  have valid : difference.graph.validate [0] = .ok () := by cbv
  have isExpression : IsExpression difference.graph 0 :=
    .of_wellFormed (validate_eq_ok_iff.mp valid) (by decide) (by decide)
  exact ⟨⟨rfl, ⟨_, rfl, rfl⟩, isExpression, .initial .standard⟩,
    expression_reads_back rfl rfl rfl isExpression (.initial .standard)⟩

end BlockVerilog.Reading
