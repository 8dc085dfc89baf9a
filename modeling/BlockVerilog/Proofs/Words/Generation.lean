import BlockVerilog.Proofs.Handlers.Locality
import BlockVerilog.Proofs.Names.State
import BlockVerilog.Proofs.Pass.Answers
import BlockVerilog.Proofs.Words.Graph

/-!
Which expressions of word operators are told apart by their texts.

Printed texts show how a tree reads from the left and nothing else of it. Trees that read the same
have the same text, whatever their values are; trees without mixed operators keep their value as
they are read, so that their texts tell their values apart.
-/

namespace BlockVerilog.Words

open BlockVerilog.Graph Handlers Pass PassState

/-! ### Names -/

section

variable {state after : PassState} {ids : List String}

/-- The name of a variable in a state. -/
def nameIn (state : PassState) (id : String) : String :=
  (state.names.lookup (.variable, id)).getD ""

/-- Variables have names in a state. -/
def HasNames (state : PassState) (ids : List String) : Prop :=
  ∀ id ∈ ids, ∃ name, state.names.lookup (.variable, id) = some name

theorem HasNames.keeps (named : HasNames state ids) (keeps : state.Keeps after) :
    HasNames after ids := fun id listed => by
  obtain ⟨name, given⟩ := named id listed
  exact ⟨name, keeps _ _ given⟩

theorem nameIn_of_keeps (named : HasNames state ids) (keeps : state.Keeps after) :
    ∀ id ∈ ids, nameIn state id = nameIn after id := fun id listed => by
  obtain ⟨name, given⟩ := named id listed
  rw [nameIn, nameIn, given, keeps _ _ given]

theorem separates_nameIn (reached : state.IsReached) (named : HasNames state ids) :
    Separates (nameIn state) ids where
  identifier id listed := by
    obtain ⟨name, given⟩ := named id listed
    rw [nameIn, given]
    exact (reached.allLegal _ _ given).identifier
  distinct id listed other otherListed same := by
    obtain ⟨name, given⟩ := named id listed
    obtain ⟨otherName, otherGiven⟩ := named other otherListed
    rw [nameIn, nameIn, given, otherGiven] at same
    obtain rfl : name = otherName := same
    exact (Prod.mk.inj (reached.allDistinct _ _ _ given otherGiven)).2

end

/-! ### Computations that name variables -/

section

variable {α β : Type} {ids more : List String}

/-- What a computation leaves behind that names these variables. -/
structure Follows (state after : PassState) (ids : List String) : Prop where
  reached : after.IsReached
  keeps : state.Keeps after
  named : HasNames after ids

/-- A computation names these variables and gives its result under their names. -/
def Gives (c : Pass α) (ids : List String) (result : (String → String) → α) : Prop :=
  ∀ state, state.IsReached →
    c.Ends state (fun a after => Follows state after ids ∧ a = result (nameIn after))
      fun _ _ => False

/-- A result that depends on nothing but the names of these variables. -/
def DependsOn (ids : List String) (result : (String → String) → α) : Prop :=
  ∀ names others, (∀ id ∈ ids, names id = others id) → result names = result others

theorem gives_pure (a : α) : Gives (pure a) [] fun _ => a := fun state reached =>
  ends_pure.mpr ⟨⟨reached, .refl state, fun _ listed => by cases listed⟩, rfl⟩

theorem gives_map {c : Pass α} {first : (String → String) → α} (gives : Gives c ids first)
    (f : α → β) : Gives (c >>= fun a => pure (f a)) ids fun names => f (first names) :=
  fun state reached => ends_bind.mpr ((gives state reached).mono
    (fun _ _ ⟨follows, given⟩ => ends_pure.mpr ⟨follows, congrArg f given⟩) fun _ _ => id)

/-- Names that are given first stay the same as more are given. -/
theorem gives_bind {c : Pass α} {f : α → Pass β} {first : (String → String) → α}
    {result : α → (String → String) → β} (begins : Gives c ids first)
    (depends : DependsOn ids first) (goesOn : ∀ a, Gives (f a) more (result a)) :
    Gives (c >>= f) (ids ++ more) fun names => result (first names) names := by
  intro state reached
  refine ends_bind.mpr ((begins state reached).mono (fun a middle ⟨follows, given⟩ => ?_)
    fun _ _ => id)
  refine (goesOn a middle follows.reached).mono (fun b after ⟨followsOn, givenOn⟩ => ?_)
    fun _ _ => id
  have named := follows.named.keeps followsOn.keeps
  have same : a = first (nameIn after) :=
    given.trans (depends _ _ (nameIn_of_keeps follows.named followsOn.keeps))
  constructor
  · refine ⟨followsOn.reached, follows.keeps.trans followsOn.keeps, fun id listed => ?_⟩
    exact (List.mem_append.mp listed).elim (named id) (followsOn.named id)
  · rw [givenOn, same]

theorem Gives.outcome {c : Pass α} {result : (String → String) → α} {state : PassState}
    (gives : Gives c ids result) (reached : state.IsReached) :
    ∃ after, c.outcome state = (.ok (result (nameIn after)), after) ∧ Follows state after ids := by
  have ends := gives state reached
  unfold Ends at ends
  rcases ended : c.outcome state with ⟨e | a, after⟩
  · rw [ended] at ends
    exact ends.elim
  · rw [ended] at ends
    obtain ⟨follows, rfl⟩ := ends
    exact ⟨after, rfl, follows⟩

theorem gives_variableName (gen : Generator) (id : String) :
    Gives (gen.variableName id) [id] fun names => names id := by
  intro state reached
  let requested := (gen.graph.variableName? id).getD id
  have given := lookup_nameVariable state id requested
  refine ends_bind.mpr (ends_get.mpr (ends_bind.mpr (ends_set.mpr (ends_pure.mpr ⟨?_, ?_⟩))))
  · refine ⟨reached.nameVariable id requested, keeps_nameVariable state id requested, ?_⟩
    intro other listed
    obtain rfl := List.mem_singleton.mp listed
    exact ⟨_, given⟩
  · exact (congrArg (Option.getD · "") given).symm

end

/-! ### Printed trees -/

/-- What a form asks for, and what it makes of the answers. -/
def Form.script (site : Site) : Form → Script Expression
  | leaf .zero => .done (atom "0")
  | leaf .one => .done (atom "1")
  | leaf (.variable id) => .variableName id fun name => .done (atom name)
  | negation sign => do
      let operand ← site.valueOr "BOOL" .unary "1"
      return (sign.text ++ operand, .unary)
  | binary .and => LogicalOperator.script ⟨.chaining "and" .unary, "1"⟩ site
  | binary .or => LogicalOperator.script ⟨.chaining "or" .unary, "0"⟩ site

/-- The handler of an expression runs a script at a node. -/
def Runs (handler : Handler) (site : Site) (script : Script Expression) : Prop :=
  ∃ generate, handler = .expression generate ∧ generate site = script

theorem negation_runs (site : Site) (sign : Reading.Sign) :
    Runs (Handlers.negation sign.text) site (Form.script site (.negation sign)) := ⟨_, rfl, rfl⟩

theorem logicWords_runs (site : Site) {connective : Connective}
    (chosen : connective? (site.field operatorField) = some connective) :
    Runs logicWords site (Form.script site (.binary connective)) := by
  refine ⟨_, rfl, ?_⟩
  unfold connective? at chosen
  split at chosen
  next text =>
    cases chosen
    simp only [text]
    rfl
  next text =>
    cases chosen
    simp only [text]
    rfl
  next => cases chosen

/-- A node of known form runs the script of that form. -/
theorem handler_of_form (site : Site) {form : Form} (known : form? site.node = some form) :
    ∃ handler, HandlerTable.builtin.get? site.node.kind = some handler ∧
      Runs handler site (form.script site) := by
  have registered : ∀ {kind : String} {handler : Handler}, site.node.kind = kind →
      (kind, handler) ∈ builtin → Runs handler site (form.script site) →
      ∃ handler, HandlerTable.builtin.get? site.node.kind = some handler ∧
        Runs handler site (form.script site) := fun same listed runs =>
    ⟨_, same ▸ HandlerTable.get?_builtin listed, runs⟩
  unfold form? at known
  split at known
  all_goals try (obtain rfl := Option.some.inj known)
  next kind =>
    have listed : ("zero", constant "0") ∈ builtin := by simp [builtin]
    exact registered kind listed ⟨_, rfl, rfl⟩
  next kind =>
    have listed : ("one", constant "1") ∈ builtin := by simp [builtin]
    exact registered kind listed ⟨_, rfl, rfl⟩
  next kind =>
    have listed : ("variables_get", variableRead) ∈ builtin := by simp [builtin]
    exact registered kind listed ⟨_, rfl, rfl⟩
  next kind =>
    exact registered kind (by simp [builtin, Reading.Sign.text]) (negation_runs site .logical)
  next kind =>
    exact registered kind (by simp [builtin, Reading.Sign.text]) (negation_runs site .bitwise)
  next kind =>
    obtain ⟨connective, chosen, rfl⟩ := Option.map_eq_some_iff.mp known
    exact registered kind (by simp [builtin]) (logicWords_runs site chosen)
  next => cases known

variable {gen : Generator} {id : NodeId} {node : Node} {below : Engine}

/-- A computation prints a tree. -/
def Prints (c : Pass (Option Expression)) (tree : Tree) : Prop :=
  Gives c tree.reads fun names => some (tree.text names, tree.level)

theorem dependsOn_text (tree : Tree) :
    DependsOn tree.reads fun names => some (tree.text names) := fun _ _ same =>
  congrArg some (text_congr same)

theorem level_le_unary (tree : Tree) : tree.level ≤ .unary := by
  cases tree with
  | leaf => exact (by decide : Precedence.atomic ≤ .unary)
  | negation | binary => exact (by decide : Precedence.unary ≤ .unary)

theorem gives_value (found : gen.graph.get? id = some node) {slot : String} {child : NodeId}
    {tree : Tree} (held : node.values.target? slot = some child)
    (prints : Prints (below.expression child) tree) :
    Gives (gen.value below id slot .unary) tree.reads fun names => some (tree.text names) := by
  intro state reached
  unfold Generator.value
  simp only [Generator.node_eq_pure found, pure_bind, held]
  refine ends_bind.mpr ((prints state reached).mono (fun given after ⟨follows, same⟩ => ?_)
    fun _ _ never => never)
  subst same
  refine ends_pure.mpr ⟨follows, ?_⟩
  -- the level of every tree is tight enough, so that it stands without parentheses
  have visible : tree.text (nameIn after) ≠ "" :=
    text_ne_empty (separates_nameIn follows.reached follows.named) (List.Subset.refl _)
  have bare := Precedence.needsParens_eq_false_iff.mpr (level_le_unary tree)
  simp [visible, parenthesize, bare]

theorem gives_leaf (site : Site) (atom : Leaf) :
    Gives (gen.run below (Form.script site (.leaf atom))) (Tree.leaf atom).reads
      fun names => (atom.text names, .atomic) := by
  cases atom with
  | zero | one => exact gives_pure _
  | «variable» name => exact gives_map (gives_variableName gen name) Handlers.atom

theorem gives_negation (found : gen.graph.get? id = some node) (sign : Reading.Sign)
    {child : NodeId} {operand : Tree} (held : node.values.target? "BOOL" = some child)
    (prints : Prints (below.expression child) operand) :
    Gives (gen.run below (Form.script (gen.site id node) (.negation sign))) operand.reads
      fun names => (sign.text ++ operand.text names, .unary) := by
  let signed : Option String → Expression := fun text => (sign.text ++ text.getD "1", .unary)
  exact gives_map (gives_value found held prints) signed

theorem gives_binary (found : gen.graph.get? id = some node) (connective : Connective)
    {first second : NodeId} {left right : Tree} (firstHeld : node.values.target? "A" = some first)
    (secondHeld : node.values.target? "B" = some second)
    (firstPrints : Prints (below.expression first) left)
    (secondPrints : Prints (below.expression second) right) :
    Gives (gen.run below (Form.script (gen.site id node) (.binary connective)))
      (left.reads ++ right.reads)
      fun names => ((Tree.binary connective left right).text names, .unary) := by
  have leftGives := gives_value found firstHeld firstPrints
  have rightGives := gives_value found secondHeld secondPrints
  cases connective with
  | and | or =>
      exact gives_bind leftGives (dependsOn_text left) fun first =>
        gives_map rightGives fun second => _

/-- An engine that may nest as deep as a tree is high prints the tree. -/
theorem engine_prints (builtin : gen.table = .builtin) {tree : Tree} {depth : Nat}
    (stands : Stands gen.graph id tree) (enough : tree.height ≤ depth) :
    Prints ((gen.engine depth).expression id) tree := by
  induction depth generalizing id tree with
  | zero => exact absurd enough (Nat.not_le.mpr tree.height_pos)
  | succ depth inductionHypothesis =>
      have registered : ∀ {node : Node} {form : Form}, gen.graph.get? id = some node →
          node.enabled = true → form? node = some form →
          Gives (gen.run (gen.engine depth) (form.script (gen.site id node))) tree.reads
            (fun names => (tree.text names, tree.level)) →
          Prints ((gen.engine (depth + 1)).expression id) tree := by
        intro node form found on known gives
        obtain ⟨handler, registered, generate, rfl, runs⟩ :=
          handler_of_form (gen.site id node) known
        rw [Generator.engine_succ]
        change Prints (gen.expressionAt (gen.engine depth) id) tree
        rw [Generator.expressionAt_of_registered found on (builtin ▸ registered), runs]
        exact gives_map gives some
      cases stands with
      | leaf found on known => exact registered found on known (gives_leaf _ _)
      | negation found on known held stands =>
          have prints := inductionHypothesis stands (Nat.le_of_succ_le_succ enough)
          exact registered found on known (gives_negation found _ held prints)
      | binary found on known firstHeld secondHeld firstStands secondStands =>
          have lower := Nat.le_of_succ_le_succ enough
          have first := inductionHypothesis firstStands (Nat.le_trans (Nat.le_max_left _ _) lower)
          have second :=
            inductionHypothesis secondStands (Nat.le_trans (Nat.le_max_right _ _) lower)
          exact registered found on known
            (gives_binary found _ firstHeld secondHeld first second)

/-! ### What texts tell -/

/-- Two expressions, one after the other, with the same text exactly if their trees read the same
from the left. -/
structure TextsTell (gen : Generator) (first second : NodeId) (tree other : Tree)
    (state middle after : PassState) (text otherText : String) : Prop where
  printed : (gen.whole.expression first).outcome state = (.ok (some (text, tree.level)), middle)
  printedNext :
    (gen.whole.expression second).outcome middle = (.ok (some (otherText, other.level)), after)
  reading : text = otherText ↔ tree.regrouped = other.regrouped
  value : tree.IsUnmixed → other.IsUnmixed → text = otherText →
    ∀ assigned, tree.value assigned = other.value assigned

theorem texts_tell_readings (builtin : gen.table = .builtin) {first second : NodeId}
    {tree other : Tree} (stands : Stands gen.graph first tree)
    (standsOther : Stands gen.graph second other) {state : PassState} (reached : state.IsReached) :
    ∃ middle after text otherText,
      TextsTell gen first second tree other state middle after text otherText := by
  obtain ⟨middle, printed, follows⟩ :=
    (engine_prints builtin stands stands.height_le_size).outcome reached
  obtain ⟨after, printedNext, followsNext⟩ :=
    (engine_prints builtin standsOther standsOther.height_le_size).outcome follows.reached
  -- both texts are compared under the names of the last state
  have sameText : tree.text (nameIn middle) = tree.text (nameIn after) :=
    text_congr (nameIn_of_keeps follows.named followsNext.keeps)
  have named : HasNames after (tree.reads ++ other.reads) :=
    List.forall_mem_append.mpr ⟨follows.named.keeps followsNext.keeps, followsNext.named⟩
  have reading : tree.text (nameIn middle) = other.text (nameIn after) ↔
      tree.regrouped = other.regrouped := by
    rw [sameText]
    exact text_eq_iff (separates_nameIn followsNext.reached named)
      (List.subset_append_left _ _) (List.subset_append_right _ _)
  refine ⟨middle, after, _, _, printed, printedNext, reading, ?_⟩
  intro unmixed otherUnmixed same assigned
  calc
    tree.value assigned = tree.regrouped.value assigned :=
      (Tree.value_regrouped assigned unmixed).symm
    _ = other.regrouped.value assigned := by rw [reading.mp same]
    _ = other.value assigned := Tree.value_regrouped assigned otherUnmixed

/-- The negation of a conjunction, and the conjunction of a negation with the same variables. -/
def negatedConjunction : Generator where
  graph :=
    { nodes := #[
        { Node.blank "logic_negate" .expression with values := .ofList [("BOOL", some 1)] },
        { Node.blank "logic_operation_2" .expression with
          key := "and", fields := .ofList [("OP", .text "AND")]
          values := .ofList [("A", some 2), ("B", some 3)] },
        { Node.blank "variables_get" .expression with
          key := "a", fields := .ofList [("VAR", .text "a")] },
        { Node.blank "variables_get" .expression with
          key := "b", fields := .ofList [("VAR", .text "b")] },
        { Node.blank "logic_operation_2" .expression with
          key := "and_not", fields := .ofList [("OP", .text "AND")]
          values := .ofList [("A", some 5), ("B", some 3)] },
        { Node.blank "logic_negate" .expression with
          key := "not", values := .ofList [("BOOL", some 2)] }]
      vars := [] }
  table := .builtin
  config := .standard

namespace negatedConjunction

theorem stands_a : Stands negatedConjunction.graph 2 (.leaf (.variable "a")) := .leaf rfl rfl rfl

theorem stands_b : Stands negatedConjunction.graph 3 (.leaf (.variable "b")) := .leaf rfl rfl rfl

def outside : Tree :=
  .negation .logical (.binary .and (.leaf (.variable "a")) (.leaf (.variable "b")))

def inside : Tree :=
  .binary .and (.negation .logical (.leaf (.variable "a"))) (.leaf (.variable "b"))

theorem stands_outside : Stands negatedConjunction.graph 0 outside :=
  .negation rfl rfl rfl rfl (.binary rfl rfl rfl rfl rfl stands_a stands_b)

theorem stands_inside : Stands negatedConjunction.graph 4 inside :=
  .binary rfl rfl rfl rfl rfl (.negation rfl rfl rfl rfl stands_a) stands_b

theorem readings_told :
    (negatedConjunction.table = .builtin ∧ Stands negatedConjunction.graph 0 outside ∧
      Stands negatedConjunction.graph 4 inside ∧ (PassState.initial .standard).IsReached) ∧
    ∃ middle after text otherText, TextsTell negatedConjunction 0 4 outside inside
      (.initial .standard) middle after text otherText :=
  ⟨⟨rfl, stands_outside, stands_inside, .initial .standard⟩,
    texts_tell_readings rfl stands_outside stands_inside (.initial .standard)⟩

/-- Neither has parentheses, so that they are printed alike. -/
theorem printed_alike :
    let whole := (negatedConjunction.whole.expression 0).outcome (.initial .standard)
    let next := (negatedConjunction.whole.expression 4).outcome whole.2
    Stands negatedConjunction.graph 0 outside ∧ Stands negatedConjunction.graph 4 inside ∧
      whole.1 = .ok (some ("!a and b", .unary)) ∧ next.1 = .ok (some ("!a and b", .unary)) ∧
      outside.value (fun _ => false) = true ∧ inside.value (fun _ => false) = false :=
  ⟨stands_outside, stands_inside, rfl, rfl, rfl, rfl⟩

end negatedConjunction

end BlockVerilog.Words
