import BlockVerilog.Proofs.Graph.Moved
import BlockVerilog.Proofs.Pass.Pairing

/-!
A pass does not see where the nodes of a graph stand.
-/

namespace BlockVerilog

open BlockVerilog.Graph

/-- A result without what its error calls a node. -/
def unnamed (result : Except PassError String) : Except PassError String :=
  result.mapError (PassError.relabel fun _ => "")

/-- If the nodes that are reached from the roots are found again elsewhere, the text is the same, or
the error but for what it calls a node. -/
theorem generate_moved {g h : Graph} {roots : List NodeId} {image : NodeId → NodeId}
    (formed : g.WellFormed roots) (otherFormed : h.WellFormed (roots.map image))
    (moves : g.MovesTo h roots image) (config : Config) :
    unnamed (generate g roots config) = unnamed (generate h (roots.map image) config) := by
  let pair : NodeId → NodeId → Prop := fun a b =>
    b = image a ∧ g.IsReached roots a ∧ g.isEnabled a = true
  have running : ∀ held, (∀ id ∈ held, g.IsReached roots id) →
      List.Forall₂ pair (g.running held) (h.running (held.map image)) := by
    intro held reached
    rw [moves.running formed otherFormed reached, List.forall₂_map_right_iff, List.forall₂_same]
    exact fun id runs => ⟨rfl, IsReached.of_running reached runs, (mem_running runs).1⟩
  have pairing : Pairing (fun _ => "") g h config.commentWrap pair := by
    refine ⟨moves.vars, ?_, ?_⟩
    · rintro a _ ⟨rfl, reached, on⟩
      obtain ⟨m, n, found, otherFound, same⟩ := moves.nodes a reached
      have enabled : m.enabled = true := (isEnabled_of_get? found).symm.trans on
      refine ⟨m, n, found, otherFound, ⟨enabled, same.enabled.trans enabled⟩, same.kind, same.shape,
        same.fields, rfl, ?_, ?_, fun slot => ?_, fun slot => ?_⟩
      · rw [same.values, OrderedMap.keys_mapValues]
      · rw [same.statements, OrderedMap.keys_mapValues]
      · rw [same.values, Slots.target?_moved]
        exact running _ fun child holds => reached.of_links (links_of_value found holds)
      · rw [same.statements, Slots.target?_moved]
        exact running _ fun head holds => reached.of_links (links_of_statement found holds)
    · rintro a _ ⟨rfl, reached, _⟩
      exact (moves.commentsBefore formed otherFormed config.commentWrap reached).symm
  refine generate_paired formed otherFormed pairing ?_
  rw [List.forall₂_map_right_iff, List.forall₂_same]
  intro root listed
  have reached : g.IsReached roots root := ⟨root, listed, .refl⟩
  obtain ⟨m, n, found, otherFound, same⟩ := moves.nodes root reached
  exact ⟨⟨m, n, found, otherFound, same.shape⟩, running (some root) (by simpa using reached)⟩

end BlockVerilog
