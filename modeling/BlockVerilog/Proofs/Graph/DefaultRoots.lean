import BlockVerilog.Proofs.Document.Loading
import BlockVerilog.Proofs.Graph.Moved

/-!
The entry points of a program that names none.

They are the nodes without a link to them. Against the direction of links every walk through a
graph without cycles ends, and it can only end at one of them, so that nothing lies elsewhere.
-/

namespace BlockVerilog

/-- A defect of the roots, not of the graph. -/
def Defect.IsOfRoot : Defect → Prop
  | .unknownRoot _ | .rootReferenced _ => True
  | _ => False

namespace Graph

open Checks Relation

variable {g : Graph}

theorem mem_defaultRoots {id : NodeId} :
    id ∈ g.defaultRoots ↔ id < g.size ∧ ∀ source, ¬ g.Links source id := by
  simp only [defaultRoots, List.mem_filter, mem_ids, decide_eq_true_eq, mem_graphTargets_iff,
    not_exists]

theorem defaultRoots_increase (g : Graph) : g.defaultRoots.Pairwise (· < ·) :=
  List.Pairwise.filter _ List.pairwise_lt_range

/-! ### Defects -/

/-- A check that does not blame the roots. -/
abbrev SparesRoots {α : Type} (check : Except Defect α) : Prop :=
  FailsWith (fun defect => ¬ defect.IsOfRoot) check

theorem sparesRoots_linked (node : Node) (slot : String) (target : NodeId) :
    SparesRoots (g.linked node slot target) := by
  unfold linked
  split
  · exact failsWith_ok _
  · exact failsWith_error id

theorem sparesRoots_checkValue (node : Node) (slot : String) (held : Option NodeId) :
    SparesRoots (g.checkValue node slot held) := by
  cases held with
  | none => exact failsWith_ok ()
  | some target =>
      apply failsWith_bind (sparesRoots_linked node slot target)
      intro child _
      exact failsWith_throwIf id

theorem sparesRoots_checkStatement (node : Node) (slot : String) (held : Option NodeId) :
    SparesRoots (g.checkStatement node slot held) := by
  cases held with
  | none => exact failsWith_ok ()
  | some target =>
      apply failsWith_bind (sparesRoots_linked node slot target)
      intro child _
      exact failsWith_throwIf id

theorem sparesRoots_checkNode (node : Node) : SparesRoots (g.checkNode node) := by
  refine failsWith_bind (failsWith_forM ?_) fun _ _ => failsWith_bind (failsWith_forM ?_) ?_
  · intro slot _
    exact sparesRoots_checkValue node slot.1 slot.2
  · intro slot _
    exact sparesRoots_checkStatement node slot.1 slot.2
  intro _ _
  unfold checkNext
  split
  · exact failsWith_error id
  · exact sparesRoots_checkStatement node "next" node.next

theorem sparesRoots_checkAcyclic : SparesRoots g.checkAcyclic := by
  unfold checkAcyclic
  split
  · exact failsWith_error id
  · exact failsWith_ok ()

/-- Roots that are in the graph and that nothing links to are no reason to refuse it. -/
theorem sparesRoots_validate {roots : List NodeId}
    (free : ∀ root ∈ roots, root < g.size ∧ ∀ id, ¬ g.Links id root) :
    SparesRoots (g.validate roots) := by
  apply failsWith_bind (failsWith_forM fun node _ => sparesRoots_checkNode node)
  intro _ _
  have accepted : roots.forM g.checkRoot = .ok () :=
    forM_eq_ok_iff.mpr fun root listed => checkRoot_eq_ok_iff.mpr (free root listed)
  rw [accepted]
  exact sparesRoots_checkAcyclic

/-! ### Coverage -/

/-- Without cycles every node lies below one that nothing links to. -/
theorem isReached_defaultRoots (acyclic : g.Acyclic) {id : NodeId} (inside : id < g.size) :
    g.IsReached g.defaultRoots id := by
  -- the walk goes from a node to one that links to it
  induction measure : extent (Function.swap g.Links) g.size id using Nat.strong_induction_on
    generalizing id with
  | _ n inductionHypothesis =>
    subst measure
    by_cases linked : ∃ source, g.Links source id
    · obtain ⟨source, link⟩ := linked
      have noCycle : ¬ TransGen (Function.swap g.Links) id id := by
        rw [transGen_swap]
        exact acyclic id
      have back : Function.swap g.Links id source := link
      have further := extent_lt_of_link back inside noCycle
      exact (inductionHypothesis _ further link.source_lt_size rfl).of_links link
    · refine ⟨id, mem_defaultRoots.mpr ⟨inside, ?_⟩, .refl⟩
      intro source link
      exact linked ⟨source, link⟩

/-- The default roots are the nodes without a link to them, in order and each once. Validation never
blames them, and where it succeeds they reach every node, as they do in a document without roots. -/
theorem defaultRoots_cover (g : Graph) :
    g.defaultRoots.Pairwise (· < ·) ∧
    (∀ id, id ∈ g.defaultRoots ↔ id < g.size ∧ ∀ source, ¬ g.Links source id) ∧
    (∀ index, g.validate g.defaultRoots ≠ .error (.unknownRoot index)) ∧
    (∀ key, g.validate g.defaultRoots ≠ .error (.rootReferenced key)) ∧
    (g.validate g.defaultRoots = .ok () → ∀ id < g.size, g.IsReached g.defaultRoots id) ∧
    ∀ (d : Document) (roots : List NodeId), d.roots = none → d.toProgram = .ok ⟨g, roots⟩ →
      roots = g.defaultRoots := by
  have blameless : SparesRoots (g.validate g.defaultRoots) :=
    sparesRoots_validate fun root listed => mem_defaultRoots.mp listed
  refine ⟨g.defaultRoots_increase, fun id => mem_defaultRoots,
    fun index failed => blameless _ failed trivial,
    fun key failed => blameless _ failed trivial, ?_, ?_⟩
  · intro valid id inside
    exact isReached_defaultRoots (validate_eq_ok_iff.mp valid).acyclic inside
  · intro d roots absent loaded
    have spec := d.toProgram_spec
    rw [loaded] at spec
    exact spec.2.2.defaultRoots absent

/-- Two processes that go on with one and the same step. -/
def sharedStep : Graph where
  nodes := #[
    { Node.blank "assign_block" .statement with values := .ofList [("VALUE", some 3)] },
    { Node.blank "first" .statement with next := some 0 },
    { Node.blank "second" .statement with statements := .ofList [("DO", some 0)] },
    Node.blank "one" .expression]
  vars := []

theorem sharedStep_covered :
    sharedStep.defaultRoots = [1, 2] ∧ sharedStep.validate [1, 2] = .ok () ∧
      ∀ id < 4, sharedStep.IsReached [1, 2] id := by
  have roots : sharedStep.defaultRoots = [1, 2] := by cbv
  have accepted : sharedStep.validate [1, 2] = .ok () := by cbv
  obtain ⟨_, _, _, _, covers, _⟩ := defaultRoots_cover sharedStep
  rw [roots] at covers
  exact ⟨roots, accepted, covers accepted⟩

end Graph

end BlockVerilog
