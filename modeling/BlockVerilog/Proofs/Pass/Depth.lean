import BlockVerilog.Proofs.Pass.Answers

/-!
How deep generation nests.

An engine that may nest as deep as a node leads to others answers about that node like one that may
nest deeper, and does not run out of levels. Both are inductions on the depth: what a node leads to
shrinks along every link.
-/

namespace BlockVerilog.Generator

open Relation BlockVerilog.Graph Pass

variable {gen : Generator}

/-- How many nodes of the graph a node leads to, itself included. -/
noncomputable def span (gen : Generator) (id : NodeId) : Nat :=
  extent gen.graph.Links gen.graph.size id

theorem span_le_size (id : NodeId) : gen.span id ≤ gen.graph.size := extent_le_size id

theorem span_pos {id : NodeId} (inside : id < gen.graph.size) : 0 < gen.span id :=
  extent_pos inside

theorem span_lt (acyclic : gen.graph.Acyclic) {source target : NodeId}
    (link : gen.graph.Links source target) : gen.span target < gen.span source :=
  extent_lt acyclic link

theorem span_le_of_mem_chain {head id : NodeId} (member : id ∈ (gen.graph.chain head).1) :
    gen.span id ≤ gen.span head :=
  extent_le_of_reaches (reaches_of_follows (reaches_of_mem_chain member))

section

variable {first second below : Engine}

theorem expressionAt_congr {id : NodeId} (agree : gen.Agree id first second)
    (isLocal : gen.table.IsLocal) :
    gen.expressionAt first id = gen.expressionAt second id := by
  unfold expressionAt
  apply bind_congr
  intro node
  split
  next =>
    split
    next generate registered => rw [run_congr (isLocal _ _ registered (gen.site id node)) agree]
    next => rfl
    next => rfl
  next => rfl

theorem statementAt_congr {id : NodeId} (agree : gen.Agree id first second)
    (isLocal : gen.table.IsLocal) :
    gen.statementAt first id = gen.statementAt second id := by
  unfold statementAt
  apply bind_congr
  intro node
  split
  next generate registered => rw [run_congr (isLocal _ _ registered (gen.site id node)) agree]
  next => rfl
  next => rfl

theorem commentedAll_congr {ids : List NodeId}
    (agree : ∀ id ∈ ids, gen.Agree id first second)
    (isLocal : gen.table.IsLocal) :
    gen.commentedAll first ids = gen.commentedAll second ids := by
  induction ids with
  | nil => rfl
  | cons id rest inductionHypothesis =>
      have same : gen.commented first id = gen.commented second id := by
        unfold commented
        rw [statementAt_congr (agree id List.mem_cons_self) isLocal]
      have others := inductionHypothesis fun other later =>
        agree other (List.mem_cons_of_mem id later)
      simp only [commentedAll, same, others]

theorem chainAt_congr {head : NodeId}
    (agree : ∀ id ∈ (gen.graph.chain head).1, gen.Agree id first second)
    (isLocal : gen.table.IsLocal) :
    gen.chainAt first head = gen.chainAt second head := by
  unfold chainAt
  dsimp only
  rw [commentedAll_congr agree isLocal]

end

/-- From as many levels as a node leads to nodes on, more levels change no answer about it. -/
theorem engine_congr (closed : gen.graph.Closed) (acyclic : gen.graph.Acyclic)
    (isLocal : gen.table.IsLocal)
    {first second : Nat} {id : NodeId} (inside : id < gen.graph.size)
    (enough : gen.span id ≤ first) (alsoEnough : gen.span id ≤ second) :
    (gen.engine first).expression id = (gen.engine second).expression id ∧
      (gen.engine first).chain id = (gen.engine second).chain id := by
  induction first generalizing second id with
  | zero =>
      have positive := span_pos inside
      omega
  | succ first inductionHypothesis =>
      cases second with
      | zero =>
          have positive := span_pos inside
          omega
      | succ second =>
          -- what hangs in a node leads to fewer nodes than the node
          have agree : ∀ member, gen.span member ≤ gen.span id →
              gen.Agree member (gen.engine first) (gen.engine second) := by
            intro member shorter
            have below : ∀ child, gen.graph.Links member child →
                (gen.engine first).expression child = (gen.engine second).expression child ∧
                  (gen.engine first).chain child = (gen.engine second).chain child := by
              intro child link
              have shrinks := span_lt acyclic link
              exact inductionHypothesis (closed _ _ link) (by omega) (by omega)
            exact ⟨fun child link => (below child link.links).1,
              fun head link => (below head link.links).2⟩
          rw [engine_succ, engine_succ]
          exact ⟨expressionAt_congr (agree id le_rfl) isLocal,
            chainAt_congr (fun member listed => agree member (span_le_of_mem_chain listed)) isLocal⟩

/-- What becomes of a call of an enabled node as a shape: its handler asks for slots of the node
only and makes allowed errors only, or the call is refused with an allowed error. -/
structure Serves (gen : Generator) (allowed : PassError → Prop) (shape : Shape) (id : NodeId)
    (node : Node) : Prop where
  handled : ∀ handler, gen.table.get? node.kind = some handler → handler.shape = shape →
    handler.IsLocal ∧ ∀ e, handler.Raises e (gen.site id node) → allowed e
  mismatched : ∀ handler, gen.table.get? node.kind = some handler → handler.shape ≠ shape →
    allowed (mismatch node handler.shape)
  unhandled : gen.table.get? node.kind = none → allowed (unsupported node)

/-- The calls of nodes as shapes that generation makes among each other, and the errors that may
come of them. -/
structure Covers (gen : Generator) (allowed : PassError → Prop) (called : Shape → NodeId → Prop) :
    Prop where
  inside : ∀ shape id, called shape id → id < gen.graph.size
  serves : ∀ shape id node, called shape id → gen.graph.get? id = some node →
    node.enabled = true → gen.Serves allowed shape id node
  values : ∀ shape id node child, called shape id → gen.graph.get? id = some node →
    node.enabled = true → child ∈ node.values.targets → called .expression child
  statements : ∀ shape id node head, called shape id → gen.graph.get? id = some node →
    node.enabled = true → head ∈ node.statements.targets → called .statement head
  next : ∀ id following, called .statement id → gen.graph.LinksNext id following →
    called .statement following

section

variable {allowed : PassError → Prop} {called : Shape → NodeId → Prop} {below : Engine}

theorem Covers.follows (covers : gen.Covers allowed called) {head id : NodeId}
    (begins : called .statement head) (path : ReflTransGen gen.graph.LinksNext head id) :
    called .statement id := by
  induction path with
  | refl => exact begins
  | tail _ link inductionHypothesis => exact covers.next _ _ inductionHypothesis link

/-- What hangs in the slots of an enabled called node is called too. -/
theorem Covers.answers (covers : gen.Covers allowed called) {shape : Shape} {id : NodeId}
    {node : Node} (isCalled : called shape id) (found : gen.graph.get? id = some node)
    (enabled : node.enabled = true)
    (each : ∀ child, gen.graph.Links id child →
      (called .expression child → (below.expression child).FailsOnly allowed) ∧
        (called .statement child → (below.chain child).FailsOnly allowed)) :
    gen.Answers allowed id below := by
  constructor
  · intro child link
    apply (each child link.links).1
    obtain ⟨_, foundAgain, hangs⟩ := link
    obtain rfl := Option.some.inj (found.symm.trans foundAgain)
    exact covers.values _ _ _ _ isCalled found enabled hangs
  · intro head link
    apply (each head link.links).2
    obtain ⟨_, foundAgain, hangs⟩ := link
    obtain rfl := Option.some.inj (found.symm.trans foundAgain)
    exact covers.statements _ _ _ _ isCalled found enabled hangs

theorem expressionAt_failsOnly (covers : gen.Covers allowed called) {id : NodeId}
    (isCalled : called .expression id)
    (answers : ∀ node, gen.graph.get? id = some node → node.enabled = true →
      gen.Answers allowed id below) :
    (gen.expressionAt below id).FailsOnly allowed := by
  have found := get?_eq_some (covers.inside _ _ isCalled)
  unfold expressionAt
  simp only [node_eq_pure found, pure_bind]
  split
  next enabled =>
    have serves := covers.serves _ _ _ isCalled found enabled
    split
    next generate registered =>
      obtain ⟨isLocal, raises⟩ := serves.handled _ registered rfl
      exact failsOnly_bind
        (run_failsOnly found (isLocal (gen.site id _)) raises (answers _ found enabled))
        fun _ => failsOnly_pure _
    next generate registered =>
      exact failsOnly_throw (serves.mismatched _ registered Shape.noConfusion)
    next registered => exact failsOnly_throw (serves.unhandled registered)
  next => exact failsOnly_pure _

theorem statementAt_failsOnly (covers : gen.Covers allowed called) {id : NodeId} {node : Node}
    (isCalled : called .statement id) (found : gen.graph.get? id = some node)
    (enabled : node.enabled = true) (answers : gen.Answers allowed id below) :
    (gen.statementAt below id).FailsOnly allowed := by
  have serves := covers.serves _ _ _ isCalled found enabled
  unfold statementAt
  simp only [node_eq_pure found, pure_bind]
  split
  next generate registered =>
    obtain ⟨isLocal, raises⟩ := serves.handled _ registered rfl
    exact run_failsOnly found (isLocal (gen.site id node)) raises answers
  next generate registered =>
    exact failsOnly_throw (serves.mismatched _ registered Shape.noConfusion)
  next registered => exact failsOnly_throw (serves.unhandled registered)

theorem commented_failsOnly (covers : gen.Covers allowed called) {id : NodeId}
    (isCalled : called .statement id)
    (answers : ∀ node, gen.graph.get? id = some node → node.enabled = true →
      gen.Answers allowed id below) :
    (gen.commented below id).FailsOnly allowed := by
  have found := get?_eq_some (covers.inside _ _ isCalled)
  unfold commented
  simp only [node_eq_pure found, pure_bind]
  split
  next enabled =>
    exact failsOnly_bind
      (statementAt_failsOnly covers isCalled found enabled (answers _ found enabled))
      fun _ => failsOnly_pure _
  next => exact failsOnly_pure _

theorem commentedAll_failsOnly {ids : List NodeId}
    (each : ∀ id ∈ ids, (gen.commented below id).FailsOnly allowed) :
    (gen.commentedAll below ids).FailsOnly allowed := by
  induction ids with
  | nil => exact failsOnly_pure _
  | cons id rest inductionHypothesis =>
      rw [List.forall_mem_cons] at each
      exact failsOnly_bind each.1 fun _ =>
        failsOnly_bind (inductionHypothesis each.2) fun _ => failsOnly_pure _

/-- An engine that may nest as deep as a called node leads to others fails with allowed errors
only. -/
theorem engine_failsOnly (closed : gen.graph.Closed) (acyclic : gen.graph.Acyclic)
    (covers : gen.Covers allowed called) {depth : Nat} {id : NodeId}
    (enough : gen.span id ≤ depth) :
    (called .expression id → ((gen.engine depth).expression id).FailsOnly allowed) ∧
      (called .statement id → ((gen.engine depth).chain id).FailsOnly allowed) := by
  induction depth generalizing id with
  | zero =>
      have outside : ¬ id < gen.graph.size := fun inside => by
        have positive := span_pos inside
        omega
      exact ⟨fun isCalled => absurd (covers.inside _ _ isCalled) outside,
        fun isCalled => absurd (covers.inside _ _ isCalled) outside⟩
  | succ depth inductionHypothesis =>
      have answers : ∀ shape member node, called shape member → gen.span member ≤ gen.span id →
          gen.graph.get? member = some node → node.enabled = true →
          gen.Answers allowed member (gen.engine depth) := by
        intro shape member node isCalled shorter found enabled
        apply covers.answers isCalled found enabled
        intro child link
        have shrinks := span_lt acyclic link
        exact inductionHypothesis (by omega)
      rw [engine_succ]
      constructor
      · intro isCalled
        apply expressionAt_failsOnly covers isCalled
        intro node found enabled
        exact answers _ _ node isCalled le_rfl found enabled
      · intro isCalled
        have ends := chain_ends closed acyclic (covers.inside _ _ isCalled)
        change (chainAt gen (gen.engine depth) id).FailsOnly allowed
        unfold chainAt
        simp only [ends, if_true]
        refine failsOnly_bind (commentedAll_failsOnly fun member listed => ?_)
          fun _ => failsOnly_pure _
        have alsoCalled := covers.follows isCalled (reaches_of_mem_chain listed)
        apply commented_failsOnly covers alsoCalled
        intro node found enabled
        exact answers _ _ node alsoCalled (span_le_of_mem_chain listed) found enabled

theorem root_failsOnly (closed : gen.graph.Closed) (acyclic : gen.graph.Acyclic)
    (covers : gen.Covers allowed called) {id : NodeId} {node : Node}
    (found : gen.graph.get? id = some node) (isCalled : called node.shape id) :
    (gen.root id).FailsOnly allowed := by
  obtain ⟨expression, chain⟩ := engine_failsOnly closed acyclic covers (span_le_size id)
  unfold root
  simp only [node_eq_pure found, pure_bind]
  split
  next shape => exact chain (shape ▸ isCalled)
  next shape =>
    apply failsOnly_bind (expression (shape ▸ isCalled))
    intro given
    cases given <;> exact failsOnly_pure _

theorem rootTexts_failsOnly {roots : List NodeId}
    (each : ∀ root ∈ roots, (gen.root root).FailsOnly allowed) :
    (gen.rootTexts roots).FailsOnly allowed := by
  induction roots with
  | nil => exact failsOnly_pure _
  | cons root rest inductionHypothesis =>
      rw [List.forall_mem_cons] at each
      exact failsOnly_bind each.1 fun _ =>
        failsOnly_bind (inductionHypothesis each.2) fun _ => failsOnly_pure _

/-- A pass fails with the errors of its checks, or with those of its roots. -/
theorem generate_failsOnly {roots : List NodeId}
    (refused : ∀ e, gen.precheck roots = .error e → allowed e)
    (each : gen.precheck roots = .ok () → ∀ root ∈ roots, (gen.root root).FailsOnly allowed) :
    (gen.generate roots).FailsOnly allowed := by
  unfold generate
  split
  next e fails => exact failsOnly_throw (refused e fails)
  next checked =>
    exact failsOnly_bind (failsOnly_modify _) fun _ =>
      failsOnly_bind (rootTexts_failsOnly (each checked)) fun _ =>
        failsOnly_bind failsOnly_get fun _ => failsOnly_pure _

end

end BlockVerilog.Generator
