import BlockVerilog.Proofs.Handlers.Check
import BlockVerilog.Proofs.Pass.Depth

/-!
The checks in front of a pass cover the pass.

Every call that a pass makes is of a live node as the shape that it has. The check of the table saw
the node, so that what the pass fails with is what a handler refuses.
-/

namespace BlockVerilog

namespace PassError

/-- An error of the traversal, and not of a field that a handler refuses. -/
def IsOfTraversal : PassError → Prop
  | invalidField _ _ _ => False
  | _ => True

end PassError

namespace Generator

open BlockVerilog.Graph Pass

/-- An error that the handler of an enabled live node makes itself. -/
def IsRaised (gen : Generator) (roots : List NodeId) (e : PassError) : Prop :=
  ∃ id node handler, gen.graph.IsLive roots id ∧ gen.graph.get? id = some node ∧
    node.enabled = true ∧ gen.table.get? node.kind = some handler ∧
      handler.Raises e (gen.site id node)

/-- The operator field of an enabled live node holds none of the operators of its kind. -/
def RefusesOperator (gen : Generator) (roots : List NodeId) (e : PassError) : Prop :=
  ∃ id node texts, gen.graph.IsLive roots id ∧ gen.graph.get? id = some node ∧
    node.enabled = true ∧ (node.kind, texts) ∈ Handlers.operatorTexts ∧ node.field "OP" ∉ texts ∧
      e = .invalidField (gen.graph.keyOf id) "OP" (node.field "OP")

/-- A live node that has a shape. -/
def IsCalled (gen : Generator) (roots : List NodeId) (shape : Shape) (id : NodeId) : Prop :=
  gen.graph.IsLive roots id ∧ ∃ node, gen.graph.get? id = some node ∧ node.shape = shape

/-- The checks of a pass have seen every call that it makes. -/
structure Covered (gen : Generator) (roots : List NodeId) : Prop where
  /-- A root is called as the shape that it has. -/
  begins : ∀ root ∈ roots, ∃ node, gen.graph.get? root = some node ∧
    gen.IsCalled roots node.shape root
  /-- What hangs in an enabled node that is called is called as its slot says, and a statement that
  follows another as a statement. -/
  goesOn : ∀ shape id node, gen.IsCalled roots shape id → gen.graph.get? id = some node →
    (node.enabled = true → ∀ child ∈ node.values.targets, gen.IsCalled roots .expression child) ∧
    (node.enabled = true → ∀ head ∈ node.statements.targets, gen.IsCalled roots .statement head) ∧
      ∀ following, node.next = some following → gen.IsCalled roots .statement following
  /-- A node is generated by a handler of the shape that it is called as. -/
  handlers : ∀ shape id node, gen.IsCalled roots shape id → gen.graph.get? id = some node →
    node.enabled = true → ∃ handler, gen.table.get? node.kind = some handler ∧
      handler.shape = shape
  expressions : ∀ id, gen.IsCalled roots .expression id →
    (gen.whole.expression id).FailsOnly (gen.IsRaised roots)
  statements : ∀ id node, gen.IsCalled roots .statement id → gen.graph.get? id = some node →
    node.enabled = true → (gen.statement id).FailsOnly (gen.IsRaised roots)
  chains : ∀ head, gen.IsCalled roots .statement head →
    (gen.whole.chain head).FailsOnly (gen.IsRaised roots)
  pass : (gen.generate roots).FailsOnly (gen.IsRaised roots)

section

variable {gen : Generator} {roots : List NodeId}

theorem isCalled_of_isLive {id : NodeId} {node : Node} (live : gen.graph.IsLive roots id)
    (found : gen.graph.get? id = some node) : gen.IsCalled roots node.shape id :=
  ⟨live, node, found, rfl⟩

theorem follow_of_enabled {node : Node} (enabled : node.enabled = true) :
    HandlerTable.follow node = node.successors := if_pos enabled

theorem isLive_of_next {id following : NodeId} {node : Node} (live : gen.graph.IsLive roots id)
    (found : gen.graph.get? id = some node) (next : node.next = some following) :
    gen.graph.IsLive roots following := by
  refine live.tail ⟨node, found, ?_⟩
  unfold HandlerTable.follow
  split
  next => exact mem_successors.mpr (.inr (.inr next))
  next => exact Option.mem_toList.mpr next

/-- Validation gives every called node the shape that it is called as. -/
theorem isCalled_of_isCalled (formed : gen.graph.WellFormed roots) {shape : Shape} {id : NodeId}
    {node : Node} (called : gen.IsCalled roots shape id) (found : gen.graph.get? id = some node) :
    (node.enabled = true → ∀ child ∈ node.values.targets, gen.IsCalled roots .expression child) ∧
    (node.enabled = true → ∀ head ∈ node.statements.targets, gen.IsCalled roots .statement head) ∧
      ∀ following, node.next = some following → gen.IsCalled roots .statement following := by
  have behind : node.enabled = true → ∀ target ∈ node.successors,
      gen.graph.IsLive roots target := fun enabled target member =>
    called.1.tail ⟨node, found, follow_of_enabled enabled ▸ member⟩
  refine ⟨?_, ?_, ?_⟩
  · intro enabled child hangs
    obtain ⟨childNode, childFound, shape⟩ := formed.values id child ⟨node, found, hangs⟩
    exact ⟨behind enabled child (mem_successors.mpr (.inl hangs)), childNode, childFound, shape⟩
  · intro enabled head hangs
    obtain ⟨headNode, headFound, shape⟩ := formed.statements id head (.inl ⟨node, found, hangs⟩)
    exact ⟨behind enabled head (mem_successors.mpr (.inr (.inl hangs))), headNode, headFound, shape⟩
  · intro following next
    obtain ⟨nextNode, nextFound, shape⟩ :=
      formed.statements id following (.inr ⟨node, found, next⟩)
    exact ⟨isLive_of_next called.1 found next, nextNode, nextFound, shape⟩

/-- The check of the table gives every called node a handler. -/
theorem handler_of_isCalled (checked : gen.table.check gen.graph roots = .ok ()) {shape : Shape}
    {id : NodeId} {node : Node} (called : gen.IsCalled roots shape id)
    (found : gen.graph.get? id = some node) (enabled : node.enabled = true) :
    ∃ handler, gen.table.get? node.kind = some handler ∧ handler.shape = shape := by
  obtain ⟨live, _, foundAgain, rfl⟩ := called
  obtain rfl := Option.some.inj (found.symm.trans foundAgain)
  exact HandlerTable.fault?_eq_none_iff.mp
    (HandlerTable.check_eq_ok_iff.mp checked id node live found enabled)

theorem covers_isCalled (isLocal : gen.table.IsLocal) (formed : gen.graph.WellFormed roots)
    (checked : gen.table.check gen.graph roots = .ok ()) :
    gen.Covers (gen.IsRaised roots) (gen.IsCalled roots) where
  inside _ _ := fun ⟨_, _, found, _⟩ => lt_size_of_get?_eq_some found
  serves shape id node called found enabled := by
    obtain ⟨handler, registered, shapes⟩ := handler_of_isCalled checked called found enabled
    have only : ∀ other, gen.table.get? node.kind = some other → other = handler :=
      fun other again => Option.some.inj (again.symm.trans registered)
    refine ⟨fun other again _ => ⟨isLocal _ _ again, fun e raised => ?_⟩,
      fun other again mismatched => ?_, fun missing => ?_⟩
    · exact ⟨id, node, other, called.1, found, enabled, again, raised⟩
    · exact absurd shapes (only other again ▸ mismatched)
    · rw [missing] at registered
      cases registered
  values _ _ _ child called found enabled hangs :=
    (isCalled_of_isCalled formed called found).1 enabled child hangs
  statements _ _ _ head called found enabled hangs :=
    (isCalled_of_isCalled formed called found).2.1 enabled head hangs
  next _ following called link := by
    obtain ⟨node, found, next⟩ := link
    exact (isCalled_of_isCalled formed called found).2.2 following next

theorem precheck_of_checks (valid : gen.graph.validate roots = .ok ())
    (checked : gen.table.check gen.graph roots = .ok ()) : gen.precheck roots = .ok () := by
  unfold precheck
  rw [valid]
  exact checked

theorem covered_of_checks (isLocal : gen.table.IsLocal)
    (valid : gen.graph.validate roots = .ok ())
    (checked : gen.table.check gen.graph roots = .ok ()) : gen.Covered roots := by
  have formed := validate_eq_ok_iff.mp valid
  have covers := covers_isCalled isLocal formed checked
  have answers := fun id => engine_failsOnly formed.closed formed.acyclic covers (span_le_size id)
  have begins : ∀ root ∈ roots, ∃ node, gen.graph.get? root = some node ∧
      gen.IsCalled roots node.shape root := fun root listed =>
    have found := get?_eq_some (formed.roots root listed).1
    ⟨_, found, isCalled_of_isLive (isLive_of_mem listed) found⟩
  constructor
  case begins => exact begins
  case goesOn =>
    intro shape id node called found
    exact isCalled_of_isCalled formed called found
  case handlers =>
    intro shape id node called found enabled
    exact handler_of_isCalled checked called found enabled
  case expressions =>
    intro id called
    exact (answers id).1 called
  case statements =>
    intro id node called found enabled
    exact statementAt_failsOnly covers called found enabled
      (covers.answers called found enabled fun child _ => answers child)
  case chains =>
    intro head called
    exact (answers head).2 called
  case pass =>
    have accepted := precheck_of_checks valid checked
    refine generate_failsOnly (fun e refused => ?_) fun _ root listed => ?_
    · rw [accepted] at refused
      cases refused
    · obtain ⟨node, found, called⟩ := begins root listed
      exact root_failsOnly formed.closed formed.acyclic covers found called

theorem refusesOperator_of_isRaised (builtin : gen.table = .builtin) {e : PassError}
    (raised : gen.IsRaised roots e) : gen.RefusesOperator roots e := by
  obtain ⟨id, node, handler, live, found, enabled, registered, made⟩ := raised
  rw [builtin] at registered
  obtain ⟨texts, known, unknown, rfl⟩ :=
    Handlers.raises_of_mem_builtin (HandlerTable.mem_builtin registered) made
  exact ⟨id, node, texts, live, found, enabled, known, unknown, rfl⟩

end

/-- A statement of a kind that is not built in, before a disabled one that has no handler. It shows
a comparison of two bits, of which one is disabled and has no handler either. -/
def logged : Generator where
  graph :=
    { nodes := #[
        { Node.blank "log" .statement with
          values := .ofList [("VALUE", some 1)], next := some 2 },
        { Node.blank "logic_compare" .expression with
          key := "comparison", fields := .ofList [("OP", .text "LT")]
          values := .ofList [("A", some 3), ("B", some 4)] },
        { Node.blank "retired" .statement with key := "old", enabled := false },
        { Node.blank "one" .expression with key := "bit" },
        { Node.blank "retired" .expression with key := "none", enabled := false }]
      vars := [] }
  table := OrderedMap.insertAll HandlerTable.builtin
    [("log", Handlers.Part.statement [.literal "log ", .value "VALUE" .none "0", .literal ";\n"])]
  config := .standard

end Generator

end BlockVerilog
