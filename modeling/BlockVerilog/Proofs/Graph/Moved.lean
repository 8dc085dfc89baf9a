import BlockVerilog.Proofs.Graph.Notes
import BlockVerilog.Proofs.Graph.Rewired
import BlockVerilog.Proofs.Graph.Running

/-!
Graphs that are the same but for the positions of their nodes.

Only the nodes that are reached from the roots have to be there again, so that the rest of the two
graphs may differ. The same nodes run behind corresponding links, and the same comments are found.
-/

namespace BlockVerilog

open Relation

/-- The same node elsewhere: it links to the images of what it linked to. Its key may differ. -/
structure Node.Moved (image : NodeId → NodeId) (m n : Node) : Prop where
  kind : n.kind = m.kind
  shape : n.shape = m.shape
  fields : n.fields = m.fields
  comment : n.comment = m.comment
  enabled : n.enabled = m.enabled
  values : n.values = m.values.mapValues (Option.map image)
  statements : n.statements = m.statements.mapValues (Option.map image)
  next : n.next = m.next.map image

namespace Slots

variable {image : NodeId → NodeId}

theorem target?_moved (slots : Slots) (slot : String) :
    Slots.target? (slots.mapValues (Option.map image)) slot = (slots.target? slot).map image :=
  target?_mapValues rfl slots slot

theorem targets_moved (slots : Slots) :
    Slots.targets (slots.mapValues (Option.map image)) = slots.targets.map image := by
  simp only [targets, OrderedMap.mapValues, List.filterMap_map, List.map_filterMap]
  rfl

end Slots

namespace Graph

/-- A node can be reached from one of the roots. -/
def IsReached (g : Graph) (roots : List NodeId) (id : NodeId) : Prop :=
  ∃ root ∈ roots, ReflTransGen g.Links root id

/-- Every node that is reached from the roots is found again at its image, in a graph with the same
variables. -/
structure MovesTo (g h : Graph) (roots : List NodeId) (image : NodeId → NodeId) : Prop where
  vars : h.vars = g.vars
  nodes : ∀ id, g.IsReached roots id →
    ∃ m n, g.get? id = some m ∧ h.get? (image id) = some n ∧ m.Moved image n

variable {g h : Graph} {roots : List NodeId} {image : NodeId → NodeId} {id : NodeId}

theorem IsReached.of_links {target : NodeId} (reached : g.IsReached roots id)
    (link : g.Links id target) : g.IsReached roots target := by
  obtain ⟨root, listed, path⟩ := reached
  exact ⟨root, listed, path.tail link⟩

theorem IsReached.of_running {held : Option NodeId}
    (reached : ∀ head ∈ held, g.IsReached roots head) (runs : id ∈ g.running held) :
    g.IsReached roots id := by
  obtain ⟨_, head, rfl, path⟩ := mem_running runs
  obtain ⟨root, listed, before⟩ := reached head rfl
  exact ⟨root, listed, before.trans (reaches_of_follows path)⟩

namespace MovesTo

variable (moves : g.MovesTo h roots image)
include moves

theorem isEnabled (reached : g.IsReached roots id) : h.isEnabled (image id) = g.isEnabled id := by
  obtain ⟨m, n, found, otherFound, same⟩ := moves.nodes id reached
  rw [isEnabled_of_get? found, isEnabled_of_get? otherFound, same.enabled]

theorem following (reached : g.IsReached roots id) :
    h.following (image id) = (g.following id).map image := by
  obtain ⟨m, n, found, otherFound, same⟩ := moves.nodes id reached
  rw [Graph.following, Graph.following, found, otherFound]
  exact same.next

theorem comment? (reached : g.IsReached roots id) : h.comment? (image id) = g.comment? id := by
  obtain ⟨m, n, found, otherFound, same⟩ := moves.nodes id reached
  rw [Graph.comment?, Graph.comment?, found, otherFound, Option.map_some, Option.map_some,
    same.comment]

theorem valueTargets (reached : g.IsReached roots id) :
    h.valueTargets (image id) = (g.valueTargets id).map image := by
  obtain ⟨m, n, found, otherFound, same⟩ := moves.nodes id reached
  rw [Graph.valueTargets, Graph.valueTargets, found, otherFound, Option.map_some, Option.map_some,
    same.values, Slots.targets_moved]
  rfl

/-- What runs behind a link is moved with it. -/
theorem running {others : List NodeId} (formed : g.WellFormed roots)
    (otherFormed : h.WellFormed others) {held : Option NodeId}
    (reached : ∀ id ∈ held, g.IsReached roots id) :
    h.running (held.map image) = (g.running held).map image := by
  have inside : ∀ id ∈ held, id < g.size := fun id holds => by
    obtain ⟨m, n, found, _⟩ := moves.nodes id (reached id holds)
    exact lt_size_of_get?_eq_some found
  revert reached
  refine follow_induction formed.closed formed.acyclic (fun _ => rfl)
    (fun id inGraph inductionHypothesis reached => ?_) inside
  have here := reached id rfl
  obtain ⟨m, n, found, otherFound, _⟩ := moves.nodes id here
  have later := inductionHypothesis fun next goes =>
    here.of_links (following_eq_some_iff.mp goes).links
  rw [Option.map_some, running_some otherFormed.closed otherFormed.acyclic
      (lt_size_of_get?_eq_some otherFound), moves.following here, later,
    running_some formed.closed formed.acyclic inGraph, List.map_append]
  refine congrArg (· ++ _) ?_
  have enabled := moves.isEnabled here
  by_cases on : g.isEnabled id = true
  · rw [List.filter_cons_of_pos on, List.filter_cons_of_pos (enabled.trans on)]
    rfl
  · rw [List.filter_cons_of_neg on, List.filter_cons_of_neg (by rwa [enabled])]
    rfl

theorem notes (depth : Nat) (reached : g.IsReached roots id) :
    h.notes depth (image id) = g.notes depth id := by
  induction depth generalizing id with
  | zero => rw [notes_zero, notes_zero, moves.comment? reached]
  | succ depth inductionHypothesis =>
      rw [notes_succ, notes_succ, moves.comment? reached, moves.valueTargets reached,
        List.flatMap_map]
      refine congrArg _ (List.flatMap_congr fun child hangs => inductionHypothesis ?_)
      exact reached.of_links (mem_valueTargets.mp hangs).links

/-- The comments below a node are found again, however many nodes the two graphs have. -/
theorem nestedComments {others : List NodeId} (formed : g.WellFormed roots)
    (otherFormed : h.WellFormed others) (reached : g.IsReached roots id) :
    h.nestedComments (image id) = g.nestedComments id := by
  obtain ⟨m, n, found, otherFound, _⟩ := moves.nodes id reached
  have inside := lt_size_of_get?_eq_some found
  have otherInside := lt_size_of_get?_eq_some otherFound
  have enough : ∀ depth, g.size ≤ depth → g.Suffices (depth, id) := fun depth le =>
    ⟨inside, (extent_le_size id).trans le⟩
  have otherEnough : ∀ depth, h.size ≤ depth → h.Suffices (depth, image id) := fun depth le =>
    ⟨otherInside, (extent_le_size (image id)).trans le⟩
  have deep := Nat.le_max_left g.size h.size
  have otherDeep := Nat.le_max_right g.size h.size
  rw [nestedComments_eq, nestedComments_eq]
  refine congrArg layNotes ?_
  calc h.notes h.size (image id)
      = h.notes (max g.size h.size) (image id) :=
        notes_congr otherFormed.closed otherFormed.acyclic (otherEnough _ le_rfl)
          (otherEnough _ otherDeep)
    _ = g.notes (max g.size h.size) id := moves.notes _ reached
    _ = g.notes g.size id :=
        notes_congr formed.closed formed.acyclic (enough _ deep) (enough _ le_rfl)

theorem commentsBefore {others : List NodeId} (formed : g.WellFormed roots)
    (otherFormed : h.WellFormed others) (width : Nat) (reached : g.IsReached roots id) :
    h.commentsBefore width (image id) = g.commentsBefore width id := by
  rw [Graph.commentsBefore, Graph.commentsBefore, moves.comment? reached,
    moves.valueTargets reached, List.flatMap_map]
  refine congrArg _ (List.flatMap_congr fun child hangs => ?_)
  rw [moves.nestedComments formed otherFormed
    (reached.of_links (mem_valueTargets.mp hangs).links)]

end MovesTo

/-- A graph whose nodes all have an image in a well-formed graph is well-formed. -/
theorem WellFormed.of_moved (formed : h.WellFormed (roots.map image)) (closed : g.Closed)
    (nodes : ∀ id m, g.get? id = some m → ∃ n, h.get? (image id) = some n ∧ m.Moved image n)
    (inside : ∀ root ∈ roots, root < g.size) : g.WellFormed roots := by
  refine formed.pullback image closed ?_ ?_ ?_ fun root listed =>
    ⟨inside root listed, List.mem_map_of_mem listed⟩
  · intro id m found
    obtain ⟨n, otherFound, same⟩ := nodes id m found
    refine ⟨n, otherFound, same.shape, fun last => ?_⟩
    rw [same.next, Option.map_eq_none_iff] at last
    exact last
  · rintro source target ⟨m, found, hangs⟩
    obtain ⟨n, otherFound, same⟩ := nodes source m found
    refine ⟨n, otherFound, ?_⟩
    rw [same.values, Slots.targets_moved]
    exact List.mem_map_of_mem hangs
  · have link : ∀ source target, g.LinksStatement source target ∨ g.LinksNext source target →
        h.LinksStatement (image source) (image target) ∨
          h.LinksNext (image source) (image target) := by
      rintro source target (⟨m, found, hangs⟩ | ⟨m, found, goes⟩)
      · obtain ⟨n, otherFound, same⟩ := nodes source m found
        refine .inl ⟨n, otherFound, ?_⟩
        rw [same.statements, Slots.targets_moved]
        exact List.mem_map_of_mem hangs
      · obtain ⟨n, otherFound, same⟩ := nodes source m found
        refine .inr ⟨n, otherFound, ?_⟩
        rw [same.next, goes, Option.map_some]
    intro source target links
    have moved := link source target links
    exact ⟨.single (links_iff_slots.mpr (.inr moved)), image source, moved⟩

end Graph

end BlockVerilog
