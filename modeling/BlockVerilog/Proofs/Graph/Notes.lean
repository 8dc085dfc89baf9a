import BlockVerilog.Proofs.Graph.Loops

/-!
The comments of a node and of what hangs below it.

`notes` lists them as the harvest meets them. From as many links on as the node leads to nodes, the
list does not depend on how far the harvest may go.
-/

namespace BlockVerilog.Graph

variable {g : Graph}

/-- The comments of a node and of what hangs below it along at most `depth` value links. -/
def notes (g : Graph) (depth : Nat) (id : NodeId) : List String :=
  (g.valueTree depth id).filterMap g.comment?

def layNotes : List String → List Char
  | [] => []
  | comments => Text.unlines (comments.map String.toList) ++ ['\n']

theorem nestedComments_eq (g : Graph) (id : NodeId) :
    g.nestedComments id = layNotes (g.notes g.size id) := by
  rw [nestedComments, harvest_eq_flatMap, List.flatMap_cons, List.flatMap_nil, List.append_nil]
  rfl

theorem notes_zero (id : NodeId) : g.notes 0 id = (g.comment? id).toList := by
  rw [notes, valueTree, List.filterMap_cons]
  cases g.comment? id <;> rfl

theorem notes_succ (depth : Nat) (id : NodeId) :
    g.notes (depth + 1) id =
      (g.comment? id).toList ++ (g.valueTargets id).flatMap (g.notes depth) := by
  rw [notes, valueTree, List.filterMap_cons, List.filterMap_flatMap]
  cases g.comment? id <;> rfl

/-- A harvest that may go further finds no more. -/
theorem notes_congr (closed : g.Closed) (acyclic : g.Acyclic) {first second : Nat} {id : NodeId}
    (enough : g.Suffices (first, id)) (alsoEnough : g.Suffices (second, id)) :
    g.notes first id = g.notes second id := by
  induction first generalizing second id with
  | zero => exact absurd enough.pos (Nat.lt_irrefl 0)
  | succ first inductionHypothesis =>
      cases second with
      | zero => exact absurd alsoEnough.pos (Nat.lt_irrefl 0)
      | succ second =>
          rw [notes_succ, notes_succ]
          refine congrArg _ (List.flatMap_congr fun child hangs => ?_)
          have link := (mem_valueTargets.mp hangs).links
          exact inductionHypothesis (enough.of_links closed acyclic link)
            (alsoEnough.of_links closed acyclic link)

theorem notes_subset (depth : Nat) (id : NodeId) : g.notes depth id ⊆ g.notes (depth + 1) id := by
  induction depth generalizing id with
  | zero =>
      rw [notes_zero, notes_succ]
      exact List.subset_append_left _ _
  | succ depth inductionHypothesis =>
      rw [notes_succ, notes_succ (depth + 1)]
      refine List.append_subset.mpr ⟨List.subset_append_left _ _, fun note listed => ?_⟩
      obtain ⟨child, hangs, found⟩ := List.mem_flatMap.mp listed
      exact List.mem_append_right _ (List.mem_flatMap.mpr
        ⟨child, hangs, inductionHypothesis child found⟩)

end BlockVerilog.Graph
