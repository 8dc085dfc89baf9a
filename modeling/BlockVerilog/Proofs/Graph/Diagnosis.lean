import BlockVerilog.Proofs.Graph.WellFormed

/-!
What validation reports of a graph that it rejects.

The links of all nodes and then the roots are places of a graph, each wrong in one way at most.
Validation goes through them in order and reports the first that is wrong. It names a node on a
cycle if none is.
-/

namespace BlockVerilog.Graph

open Checks Relation

/-- Where a graph can be wrong: what a value slot, a statement slot or `next` of a node holds, and
what is given as a root. -/
inductive Place where
  | value (node : Node) (slot : String) (target : NodeId)
  | statement (node : Node) (slot : String) (target : NodeId)
  | next (node : Node) (target : NodeId)
  | root (id : NodeId)

/-- The links of a node: value slots in order, statement slots in order, then `next`. -/
def linkPlaces (node : Node) : List Place :=
  (node.values.entries.flatMap fun slot => slot.2.toList.map (.value node slot.1)) ++
    ((node.statements.entries.flatMap fun slot => slot.2.toList.map (.statement node slot.1)) ++
      node.next.toList.map (.next node))

/-- The links of the nodes in the order they were added, then the roots. -/
def places (g : Graph) (roots : List NodeId) : List Place :=
  g.nodes.toList.flatMap linkPlaces ++ roots.map .root

/-- What is wrong at a place. -/
inductive Offends (g : Graph) : Place → Defect → Prop where
  | danglingValue {node slot target} (missing : g.get? target = none) :
      Offends g (.value node slot target) (.danglingReference node.key slot (numberText target))
  | valueNotExpression {node slot target child} (found : g.get? target = some child)
      (shape : child.shape = .statement) :
      Offends g (.value node slot target) (.valueNotExpression node.key slot child.key)
  | danglingStatement {node slot target} (missing : g.get? target = none) :
      Offends g (.statement node slot target) (.danglingReference node.key slot (numberText target))
  | statementIsExpression {node slot target child} (found : g.get? target = some child)
      (shape : child.shape = .expression) :
      Offends g (.statement node slot target) (.statementIsExpression node.key slot child.key)
  | expressionHasNext {node target} (shape : node.shape = .expression) :
      Offends g (.next node target) (.expressionHasNext node.key)
  /-- Behind a statement, `next` is one more statement slot. -/
  | follows {node target defect} (shape : node.shape = .statement)
      (offending : Offends g (.statement node "next" target) defect) :
      Offends g (.next node target) defect
  | unknownRoot {id} (missing : g.get? id = none) : Offends g (.root id) (.unknownRoot id)
  | rootReferenced {id node} (found : g.get? id = some node) (linked : ∃ source, g.Links source id) :
      Offends g (.root id) (.rootReferenced node.key)

/-- What is to be said of a graph that cannot be traversed from these roots: the first of its places
where something is wrong or, if there is none, a node that reaches itself. -/
inductive Diagnosis (g : Graph) (roots : List NodeId) : Defect → Prop where
  | place {defect} (first : FirstOffence g.Offends (g.places roots) defect) :
      Diagnosis g roots defect
  | cycle {id node} (fine : ∀ place ∈ g.places roots, ∀ defect, ¬ g.Offends place defect)
      (found : g.get? id = some node) (loop : TransGen g.Links id id) :
      Diagnosis g roots (.cycle node.key)

variable {g : Graph} {roots : List NodeId}

/-- A place is wrong in one way only. -/
theorem Offends.unique {place : Place} {first second : Defect}
    (offending : g.Offends place first) (also : g.Offends place second) : first = second := by
  induction offending with
  | danglingValue missing | danglingStatement missing | unknownRoot missing =>
      cases also <;> simp_all
  | valueNotExpression found | statementIsExpression found | rootReferenced found =>
      cases also <;> simp_all
  | expressionHasNext shape =>
      cases also with
      | expressionHasNext => rfl
      | follows other _ => simp [shape] at other
  | follows shape _ inductionHypothesis =>
      cases also with
      | expressionHasNext other => simp [shape] at other
      | follows _ offending => exact inductionHypothesis offending

/-- Two diagnoses of a graph are the same, unless both name nodes on cycles. -/
theorem Diagnosis.unique {first second : Defect} (diagnosed : g.Diagnosis roots first)
    (also : g.Diagnosis roots second) :
    second = first ∨ (∃ key, first = .cycle key) ∧ ∃ key, second = .cycle key := by
  cases diagnosed with
  | place earliest =>
      cases also with
      | place earliestToo =>
          left
          have functional : ∀ place defect other, g.Offends place defect →
              g.Offends place other → defect = other := fun _ _ _ => Offends.unique
          exact earliestToo.unique functional earliest
      | cycle fine =>
          obtain ⟨before, found, after, split, _, offending⟩ := earliest
          exact absurd offending (fine found (by simp [split]) first)
  | cycle fine =>
      cases also with
      | place earliest =>
          obtain ⟨before, found, after, split, _, offending⟩ := earliest
          exact absurd offending (fine found (by simp [split]) second)
      | cycle => exact .inr ⟨⟨_, rfl⟩, ⟨_, rfl⟩⟩

/-! ### The checks of one place -/

theorem linked_eq_error_iff {node : Node} {slot : String} {target : NodeId} {defect : Defect} :
    g.linked node slot target = .error defect ↔
      g.get? target = none ∧ .danglingReference node.key slot (numberText target) = defect := by
  unfold linked
  cases g.get? target with
  | none => simp
  | some found => simp

theorem checkValue_goesThrough (node : Node) (slot : String) (held : Option NodeId) :
    GoesThrough g.Offends (held.toList.map (.value node slot)) (g.checkValue node slot held) := by
  cases held with
  | none => exact goesThrough_none
  | some target =>
      apply goesThrough_one
      · intro accepted defect offending
        obtain ⟨child, found, shape⟩ := checkValue_eq_ok_iff.mp accepted target rfl
        cases offending <;> simp_all
      · intro defect refused
        simp only [checkValue, bind_eq_error_iff, linked_eq_error_iff, linked_eq_ok_iff,
          throwIf_eq_error_iff] at refused
        rcases refused with ⟨missing, rfl⟩ | ⟨child, found, shape, rfl⟩
        · exact .danglingValue missing
        · exact .valueNotExpression found shape

theorem offends_of_checkStatement {node : Node} {slot : String} {target : NodeId} {defect : Defect}
    (refused : g.checkStatement node slot (some target) = .error defect) :
    g.Offends (.statement node slot target) defect := by
  simp only [checkStatement, bind_eq_error_iff, linked_eq_error_iff, linked_eq_ok_iff,
    throwIf_eq_error_iff] at refused
  rcases refused with ⟨missing, rfl⟩ | ⟨child, found, shape, rfl⟩
  · exact .danglingStatement missing
  · exact .statementIsExpression found shape

theorem not_offends_of_checkStatement {node : Node} {slot : String} {target : NodeId}
    (accepted : g.checkStatement node slot (some target) = .ok ()) (defect : Defect) :
    ¬ g.Offends (.statement node slot target) defect := by
  intro offending
  obtain ⟨child, found, shape⟩ := checkStatement_eq_ok_iff.mp accepted target rfl
  cases offending <;> simp_all

theorem checkStatement_goesThrough (node : Node) (slot : String) (held : Option NodeId) :
    GoesThrough g.Offends (held.toList.map (.statement node slot))
      (g.checkStatement node slot held) := by
  cases held with
  | none => exact goesThrough_none
  | some target =>
      apply goesThrough_one
      · exact not_offends_of_checkStatement
      · exact fun defect => offends_of_checkStatement

theorem checkNext_goesThrough (node : Node) :
    GoesThrough g.Offends (node.next.toList.map (.next node)) (g.checkNext node) := by
  unfold checkNext
  cases node.next with
  | none => exact goesThrough_none
  | some target =>
      apply goesThrough_one
      · intro accepted defect offending
        obtain ⟨noNext, checked⟩ := refuse_eq_ok_iff.mp accepted
        cases offending with
        | expressionHasNext shape => simp [shape] at noNext
        | follows _ offending => exact not_offends_of_checkStatement checked defect offending
      · intro defect refused
        rcases refuse_eq_error_iff.mp refused with ⟨hasNext, rfl⟩ | ⟨noNext, refusedTarget⟩
        · exact .expressionHasNext (by simpa using hasNext)
        · have shape : node.shape = .statement := by
            cases shape : node.shape with
            | expression => simp [shape] at noNext
            | statement => rfl
          exact .follows shape (offends_of_checkStatement refusedTarget)

theorem checkRoot_goesThrough (root : NodeId) :
    GoesThrough g.Offends [.root root] (g.checkRoot root) := by
  apply goesThrough_one
  · intro accepted defect offending
    obtain ⟨inside, unlinked⟩ := checkRoot_eq_ok_iff.mp accepted
    cases offending with
    | unknownRoot missing =>
        exact absurd inside (Nat.not_lt_of_le (Array.getElem?_eq_none_iff.mp missing))
    | rootReferenced _ linked =>
        obtain ⟨source, link⟩ := linked
        exact unlinked source link
  · intro defect refused
    simp only [checkRoot, refuse_eq_error_iff, throwIf_eq_error_iff, mem_graphTargets_iff,
      contains, decide_eq_true_eq, not_not] at refused
    rcases refused with ⟨outside, rfl⟩ | ⟨inside, linked, rfl⟩
    · exact .unknownRoot (Array.getElem?_eq_none_iff.mpr (Nat.le_of_not_lt outside))
    · have found := get?_eq_some inside
      have key : g.keyOf root = g.nodes[root].key := by
        rw [keyOf, found]
        rfl
      rw [key]
      exact .rootReferenced found linked

/-! ### All checks -/

theorem checkNode_goesThrough (node : Node) :
    GoesThrough g.Offends (linkPlaces node) (g.checkNode node) := by
  apply goesThrough_bind
  · exact goesThrough_forM fun slot _ => checkValue_goesThrough node slot.1 slot.2
  · intro _
    apply goesThrough_bind
    · exact goesThrough_forM fun slot _ => checkStatement_goesThrough node slot.1 slot.2
    · exact fun _ => checkNext_goesThrough node

theorem checkLinks_goesThrough :
    GoesThrough g.Offends (g.nodes.toList.flatMap linkPlaces) g.checkLinks :=
  goesThrough_forM fun node _ => checkNode_goesThrough node

theorem checkRoots_goesThrough (roots : List NodeId) :
    GoesThrough g.Offends (roots.map .root) (roots.forM g.checkRoot) := by
  rw [List.map_eq_flatMap]
  exact goesThrough_forM fun root _ => checkRoot_goesThrough root

/-- The node that a failed search names lies on a cycle. -/
theorem checkAcyclic_eq_error {defect : Defect} (closed : g.Closed)
    (refused : g.checkAcyclic = .error defect) :
    ∃ id node, g.get? id = some node ∧ TransGen g.Links id id ∧ defect = .cycle node.key := by
  have searched := exploreAll_spec closed g.searchState_ids (fun _ found => mem_ids.mp found)
    (List.Subset.refl _)
  unfold checkAcyclic at refused
  cases result : g.exploreAll g.ids g.ids with
  | ok => simp [result] at refused
  | error closing =>
      have loop : TransGen g.Links closing closing := by simpa [result] using searched
      obtain ⟨next, link, _⟩ := TransGen.head'_iff.mp loop
      have found := get?_eq_some link.source_lt_size
      refine ⟨closing, _, found, loop, ?_⟩
      simpa [result, keyOf, found] using refused.symm

/-- Validation reports the first place of a graph where something is wrong, with what is wrong
there. It speaks of a cycle only if nothing is, and names a node that reaches itself then. There is
nothing else that it could report, but for another node on a cycle. -/
theorem validate_reports_first {defect : Defect} (rejected : g.validate roots = .error defect) :
    g.Diagnosis roots defect ∧ ∀ other, g.Diagnosis roots other →
      other = defect ∨ (∃ key, defect = .cycle key) ∧ ∃ key, other = .cycle key := by
  have checked : GoesThrough g.Offends (g.places roots)
      (g.checkLinks >>= fun _ => roots.forM g.checkRoot) :=
    goesThrough_bind checkLinks_goesThrough fun _ => checkRoots_goesThrough roots
  have regroup : g.validate roots =
      ((g.checkLinks >>= fun _ => roots.forM g.checkRoot) >>= fun _ => g.checkAcyclic) := by
    rw [bind_assoc]
    rfl
  have diagnosed : g.Diagnosis roots defect := by
    rw [regroup, bind_eq_error_iff] at rejected
    rcases rejected with early | ⟨_, accepted, cyclic⟩
    · rw [early] at checked
      exact .place checked
    · rw [accepted] at checked
      obtain ⟨linksAccepted, _⟩ := andThen_eq_ok_iff.mp accepted
      obtain ⟨id, node, found, loop, rfl⟩ :=
        checkAcyclic_eq_error (closed_of_checkLinks linksAccepted) cyclic
      exact .cycle checked found loop
  exact ⟨diagnosed, fun _ => diagnosed.unique⟩

/-- An endless chain, held as the first operand of an expression whose second one is missing. -/
def tangled : Graph where
  nodes := #[
    { Node.blank "chain" .statement with key := "chain", next := some 0 },
    { Node.blank "sum" .expression with
      key := "sum", values := .ofList [("A", some 0), ("B", some 7)], next := some 0 }]
  vars := []

/-- The same chain without anything that holds it. -/
def endless : Graph where
  nodes := #[{ Node.blank "chain" .statement with key := "chain", next := some 0 }]
  vars := []

theorem validate_reports_first_tangled :
    tangled.validate [0, 9] = .error (.valueNotExpression "sum" "A" "chain") ∧
      tangled.Diagnosis [0, 9] (.valueNotExpression "sum" "A" "chain") ∧
      endless.validate [] = .error (.cycle "chain") ∧ endless.Diagnosis [] (.cycle "chain") := by
  have misused : tangled.validate [0, 9] = .error (.valueNotExpression "sum" "A" "chain") := by
    cbv
  have looping : endless.validate [] = .error (.cycle "chain") := by cbv
  exact ⟨misused, (validate_reports_first misused).1, looping, (validate_reports_first looping).1⟩

end BlockVerilog.Graph
