import BlockVerilog.Proofs.Checks
import BlockVerilog.Proofs.Graph.Search

/-!
What a graph must be to be traversed from its roots, and that validation accepts exactly that.
-/

namespace BlockVerilog.Graph

open Checks

/-- A graph that can be traversed from these roots. -/
structure WellFormed (g : Graph) (roots : List NodeId) : Prop where
  closed : g.Closed
  /-- Value slots hold expressions. -/
  values : ∀ source target, g.LinksValue source target →
    ∃ child, g.get? target = some child ∧ child.shape = .expression
  /-- Statement slots hold statements, and statements follow each other. -/
  statements : ∀ source target, g.LinksStatement source target ∨ g.LinksNext source target →
    ∃ child, g.get? target = some child ∧ child.shape = .statement
  noNext : ∀ id node, g.get? id = some node → node.shape = .expression → node.next = none
  roots : ∀ root ∈ roots, root < g.size ∧ ∀ id, ¬ g.Links id root
  acyclic : g.Acyclic

theorem mem_nodes_iff {g : Graph} {node : Node} :
    node ∈ g.nodes.toList ↔ ∃ id, g.get? id = some node := by
  rw [Array.mem_toList_iff, Array.mem_iff_getElem?]
  rfl

theorem linked_eq_ok_iff {g : Graph} {node child : Node} {slot : String} {target : NodeId} :
    g.linked node slot target = .ok child ↔ g.get? target = some child := by
  unfold linked
  cases g.get? target with
  | none => simp
  | some found => simp

theorem checkValue_eq_ok_iff {g : Graph} {node : Node} {slot : String} {held : Option NodeId} :
    g.checkValue node slot held = .ok () ↔ ∀ target, held = some target →
      ∃ child, g.get? target = some child ∧ child.shape = .expression := by
  cases held with
  | none => simp [checkValue]
  | some target =>
      simp only [checkValue, bind_eq_ok_iff, linked_eq_ok_iff, throwIf_eq_ok_iff,
        Option.some.injEq, forall_eq']
      refine exists_congr fun child => and_congr_right fun _ => ?_
      cases child.shape <;> simp

theorem checkStatement_eq_ok_iff {g : Graph} {node : Node} {slot : String}
    {held : Option NodeId} :
    g.checkStatement node slot held = .ok () ↔ ∀ target, held = some target →
      ∃ child, g.get? target = some child ∧ child.shape = .statement := by
  cases held with
  | none => simp [checkStatement]
  | some target =>
      simp only [checkStatement, bind_eq_ok_iff, linked_eq_ok_iff, throwIf_eq_ok_iff,
        Option.some.injEq, forall_eq']
      refine exists_congr fun child => and_congr_right fun _ => ?_
      cases child.shape <;> simp

theorem checkNext_eq_ok_iff {g : Graph} {node : Node} :
    g.checkNext node = .ok () ↔
      (node.shape = .expression → node.next = none) ∧ ∀ target, node.next = some target →
        ∃ child, g.get? target = some child ∧ child.shape = .statement := by
  simp only [checkNext, refuse_eq_ok_iff, checkStatement_eq_ok_iff]
  apply and_congr_left
  intro _
  cases node.next <;> simp

theorem checkNode_eq_ok_iff {g : Graph} {node : Node} :
    g.checkNode node = .ok () ↔
      (∀ target ∈ node.values.targets,
        ∃ child, g.get? target = some child ∧ child.shape = .expression) ∧
      (∀ target, target ∈ node.statements.targets ∨ node.next = some target →
        ∃ child, g.get? target = some child ∧ child.shape = .statement) ∧
      (node.shape = .expression → node.next = none) := by
  simp only [checkNode, andThen_eq_ok_iff, forM_eq_ok_iff, checkValue_eq_ok_iff,
    checkStatement_eq_ok_iff, checkNext_eq_ok_iff, Slots.mem_targets_iff, Prod.forall]
  constructor
  · rintro ⟨values, statements, noNext, next⟩
    refine ⟨fun target ⟨name, slot⟩ => values name _ slot target rfl, ?_, noNext⟩
    rintro target (⟨name, slot⟩ | follows)
    · exact statements name _ slot target rfl
    · exact next target follows
  · rintro ⟨values, statements, noNext⟩
    refine ⟨fun name held slot target held_eq => values target ⟨name, held_eq ▸ slot⟩,
      fun name held slot target held_eq => statements target (.inl ⟨name, held_eq ▸ slot⟩),
      noNext, fun target follows => statements target (.inr follows)⟩

theorem checkLinks_eq_ok_iff {g : Graph} :
    g.checkLinks = .ok () ↔
      (∀ source target, g.LinksValue source target →
        ∃ child, g.get? target = some child ∧ child.shape = .expression) ∧
      (∀ source target, g.LinksStatement source target ∨ g.LinksNext source target →
        ∃ child, g.get? target = some child ∧ child.shape = .statement) ∧
      ∀ id node, g.get? id = some node → node.shape = .expression → node.next = none := by
  simp only [checkLinks, forM_eq_ok_iff, mem_nodes_iff, checkNode_eq_ok_iff]
  constructor
  · intro checked
    refine ⟨?_, ?_, fun id node found => (checked node ⟨id, found⟩).2.2⟩
    · rintro source target ⟨node, found, link⟩
      exact (checked node ⟨source, found⟩).1 target link
    · rintro source target (⟨node, found, link⟩ | ⟨node, found, link⟩)
      · exact (checked node ⟨source, found⟩).2.1 target (.inl link)
      · exact (checked node ⟨source, found⟩).2.1 target (.inr link)
  · rintro ⟨values, statements, noNext⟩ node ⟨id, found⟩
    refine ⟨fun target link => values id target ⟨node, found, link⟩, ?_, noNext id node found⟩
    rintro target (link | link)
    · exact statements id target (.inl ⟨node, found, link⟩)
    · exact statements id target (.inr ⟨node, found, link⟩)

theorem closed_of_checkLinks {g : Graph} (checked : g.checkLinks = .ok ()) : g.Closed := by
  obtain ⟨values, statements, _⟩ := checkLinks_eq_ok_iff.mp checked
  intro source target link
  rcases links_iff_slots.mp link with value | others
  · obtain ⟨child, found, _⟩ := values source target value
    exact lt_size_of_get?_eq_some found
  · obtain ⟨child, found, _⟩ := statements source target others
    exact lt_size_of_get?_eq_some found

theorem mem_graphTargets_iff {g : Graph} {target : NodeId} :
    target ∈ g.targets ↔ ∃ source, g.Links source target := by
  simp only [targets, List.mem_flatMap, mem_nodes_iff, links_iff]
  constructor
  · rintro ⟨node, ⟨source, found⟩, link⟩
    exact ⟨source, node, found, link⟩
  · rintro ⟨source, node, found, link⟩
    exact ⟨node, ⟨source, found⟩, link⟩

theorem checkRoot_eq_ok_iff {g : Graph} {root : NodeId} :
    g.checkRoot root = .ok () ↔ root < g.size ∧ ∀ id, ¬ g.Links id root := by
  simp only [checkRoot, refuse_eq_ok_iff, throwIf_eq_ok_iff, contains, mem_graphTargets_iff,
    decide_eq_true_eq, not_not, not_exists]

/-- Validation accepts exactly the well-formed graphs. -/
theorem validate_eq_ok_iff {g : Graph} {roots : List NodeId} :
    g.validate roots = .ok () ↔ g.WellFormed roots := by
  simp only [validate, andThen_eq_ok_iff, forM_eq_ok_iff, checkRoot_eq_ok_iff]
  constructor
  · rintro ⟨links, rootsChecked, searched⟩
    have closed := closed_of_checkLinks links
    obtain ⟨values, statements, noNext⟩ := checkLinks_eq_ok_iff.mp links
    exact ⟨closed, values, statements, noNext, rootsChecked,
      (checkAcyclic_eq_ok_iff closed).mp searched⟩
  · intro formed
    exact ⟨checkLinks_eq_ok_iff.mpr ⟨formed.values, formed.statements, formed.noNext⟩,
      formed.roots, (checkAcyclic_eq_ok_iff formed.closed).mpr formed.acyclic⟩

end BlockVerilog.Graph
