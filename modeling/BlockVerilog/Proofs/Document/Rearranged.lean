import BlockVerilog.Proofs.Document.Loading
import BlockVerilog.Proofs.Pass.Moved

/-!
The order of the nodes of a document, and nodes that nothing refers to.

The nodes of a document are found again in every document that has them among its own: their images
are the positions of the same ids. So a pass over the program of one gives the text of the other.
-/

namespace BlockVerilog

open Relation

namespace Document

variable {d e : Document}

/-- The other document has the nodes of the first in any order, with some added, and the same
variables and listed roots. -/
structure Rearranges (d e : Document) (added : List DocumentNode) : Prop where
  vars : e.vars = d.vars
  listed : ∃ roots, d.roots = some roots ∧ e.roots = some roots
  nodes : e.nodes.Perm (d.nodes ++ added)

/-- Where a document has the node that stands at a position of another. -/
def placeOf (e d : Document) (position : NodeId) : NodeId :=
  ((d.ids[position]?).bind e.position?).getD 0

theorem IsAt.placeOf (distinct : e.ids.Nodup) {id : String} {position other : NodeId}
    (isAt : d.IsAt id position) (otherAt : e.IsAt id other) : e.placeOf d position = other := by
  have placed : e.placeOf d position = (e.position? id).getD 0 := by
    rw [Document.placeOf, show d.ids[position]? = some id from isAt, Option.bind_some]
  cases found : e.position? id with
  | none => exact absurd otherAt.mem (position?_eq_none_iff.mp found)
  | some held =>
      rw [placed, found, Option.getD_some]
      exact (isAt_of_position? found).unique distinct otherAt

section

variable (distinct : e.ids.Nodup)
include distinct

theorem optional_moved {target : Option String} {held other : Option NodeId}
    (isHeld : Option.Rel d.IsAt target held) (isOther : Option.Rel e.IsAt target other) :
    other = held.map (e.placeOf d) := by
  cases isHeld with
  | none => cases isOther; rfl
  | some isAt =>
      cases isOther with
      | some otherAt => exact congrArg some (isAt.placeOf distinct otherAt).symm

theorem positions_moved {ids : List String} {positions others : List NodeId}
    (first : List.Forall₂ d.IsAt ids positions) (second : List.Forall₂ e.IsAt ids others) :
    others = positions.map (e.placeOf d) := by
  induction first generalizing others with
  | nil => cases second; rfl
  | cons isAt _ inductionHypothesis =>
      cases second with
      | cons otherAt later =>
          rw [List.map_cons, isAt.placeOf distinct otherAt, inductionHypothesis later]

end

theorem exists_isAt {ids : List String} {positions : List NodeId}
    (lists : List.Forall₂ d.IsAt ids positions) :
    ∀ position ∈ positions, ∃ id, d.IsAt id position := by
  induction lists with
  | nil => simp
  | cons isAt _ inductionHypothesis =>
      exact List.forall_mem_cons.mpr ⟨⟨_, isAt⟩, inductionHypothesis⟩

/-- A name that occurs has a last occurrence. -/
theorem exists_last {entries : List SlotEntry} {name : String}
    (known : name ∈ entries.map Prod.fst) : ∃ before target after,
      entries = before ++ (name, target) :: after ∧ name ∉ after.map Prod.fst := by
  induction entries with
  | nil => cases known
  | cons entry entries inductionHypothesis =>
      by_cases later : name ∈ entries.map Prod.fst
      · obtain ⟨before, target, after, rfl, last⟩ := inductionHypothesis later
        exact ⟨entry :: before, target, after, rfl, last⟩
      · rw [List.map_cons, List.mem_cons] at known
        obtain rfl := known.resolve_right later
        exact ⟨[], entry.2, entries, rfl, later⟩

theorem DeclaresSlots.exists_target {entries : List SlotEntry} {slots : Slots}
    (declares : d.DeclaresSlots entries slots) {name : String} (known : name ∈ slots.keys) :
    ∃ before target after, entries = before ++ (name, target) :: after ∧
      name ∉ after.map Prod.fst ∧ ∃ held, slots.get? name = some held ∧
        Option.Rel d.IsAt target held := by
  rw [declares.names, List.mem_eraseDups] at known
  obtain ⟨before, target, after, split, last⟩ := exists_last known
  exact ⟨before, target, after, split, last, declares.targets before name target after split last⟩

theorem DeclaresSlots.moved (distinct : e.ids.Nodup) {entries : List SlotEntry}
    {slots others : Slots} (declares : d.DeclaresSlots entries slots)
    (otherDeclares : e.DeclaresSlots entries others) :
    others = slots.mapValues (Option.map (e.placeOf d)) := by
  apply OrderedMap.ext_get?
  · rw [OrderedMap.keys_mapValues, otherDeclares.names, declares.names]
  · intro name known
    obtain ⟨before, target, after, split, last, other, hasOther, isOther⟩ :=
      otherDeclares.exists_target known
    obtain ⟨held, hasHeld, isHeld⟩ := declares.targets before name target after split last
    rw [hasOther, OrderedMap.get?_mapValues, hasHeld, Option.map_some,
      optional_moved distinct isHeld isOther]

theorem DeclaresNode.moved (distinct : e.ids.Nodup) {declared : DocumentNode} {i j : NodeId}
    {m n : Node} (declares : d.DeclaresNode i declared m)
    (otherDeclares : e.DeclaresNode j declared n) : m.Moved (e.placeOf d) n where
  kind := otherDeclares.kind.trans declares.kind.symm
  shape := otherDeclares.shape.trans declares.shape.symm
  fields := otherDeclares.fields.trans declares.fields.symm
  comment := otherDeclares.comment.trans declares.comment.symm
  enabled := otherDeclares.enabled.trans declares.enabled.symm
  values := declares.values.moved distinct otherDeclares.values
  statements := declares.statements.moved distinct otherDeclares.statements
  next := optional_moved distinct declares.next otherDeclares.next

theorem DeclaresSlots.isAt_of_mem_targets {entries : List SlotEntry} {slots : Slots}
    (declares : d.DeclaresSlots entries slots) {target : NodeId} (hangs : target ∈ slots.targets) :
    ∃ id, d.IsAt id target := by
  obtain ⟨name, listed⟩ := Slots.mem_targets_iff.mp hangs
  have holds := OrderedMap.get?_eq_some_iff.mpr listed
  obtain ⟨_, _, _, _, _, held, isHeld, related⟩ :=
    declares.exists_target (OrderedMap.mem_keys_iff.mpr ⟨_, holds⟩)
  obtain rfl := Option.some.inj (holds.symm.trans isHeld)
  cases related with
  | some isAt => exact ⟨_, isAt⟩

section

variable {p q : Program}

theorem Declares.declared (declares : d.Declares p) {position : NodeId} {node : Node}
    (found : p.graph.get? position = some node) : ∃ declared,
      d.nodes[position]? = some declared ∧ d.DeclaresNode position declared node := by
  have inside := Graph.lt_size_of_get?_eq_some found
  rw [declares.size] at inside
  obtain ⟨again, foundAgain, declaresNode⟩ :=
    declares.nodes position _ (List.getElem?_eq_getElem inside)
  obtain rfl := Option.some.inj (found.symm.trans foundAgain)
  exact ⟨_, List.getElem?_eq_getElem inside, declaresNode⟩

/-- Links of a program that a document describes stay inside it. -/
theorem Declares.closed (declares : d.Declares p) : p.graph.Closed := by
  intro source target link
  obtain ⟨node, found, leads⟩ := Graph.links_iff.mp link
  obtain ⟨declared, _, declaresNode⟩ := declares.declared found
  rcases Graph.mem_successors.mp leads with hangs | hangs | goes
  · obtain ⟨id, isAt⟩ := declaresNode.values.isAt_of_mem_targets hangs
    exact declares.lt_size_of_isAt isAt
  · obtain ⟨id, isAt⟩ := declaresNode.statements.isAt_of_mem_targets hangs
    exact declares.lt_size_of_isAt isAt
  · have related := declaresNode.next
    rw [goes] at related
    generalize declared.next = next at related
    cases related with
    | some isAt => exact declares.lt_size_of_isAt isAt

/-- The nodes of a document are found again, where another document has them. -/
theorem Declares.moved (declares : d.Declares p) (otherDeclares : e.Declares q)
    (distinct : e.ids.Nodup) (contained : d.nodes ⊆ e.nodes) {position : NodeId} {m : Node}
    (found : p.graph.get? position = some m) :
    ∃ n, q.graph.get? (e.placeOf d position) = some n ∧ m.Moved (e.placeOf d) n := by
  obtain ⟨declared, here, declaresNode⟩ := declares.declared found
  obtain ⟨other, there⟩ := List.mem_iff_getElem?.mp (contained (List.mem_of_getElem? here))
  obtain ⟨n, otherFound, otherNode⟩ := otherDeclares.nodes other declared there
  have isAt : d.IsAt declared.id position := by rw [IsAt, ids, List.getElem?_map, here]; rfl
  have otherAt : e.IsAt declared.id other := by rw [IsAt, ids, List.getElem?_map, there]; rfl
  rw [isAt.placeOf distinct otherAt]
  exact ⟨n, otherFound, declaresNode.moved distinct otherNode⟩

end

/-- What two programs have in common if one document has all nodes of the other, the same variables
and the same listed roots. -/
structure Contains (d e : Document) (p q : Program) : Prop where
  declares : d.Declares p
  otherDeclares : e.Declares q
  distinct : e.ids.Nodup
  contained : d.nodes ⊆ e.nodes
  vars : e.vars = d.vars
  listed : ∃ roots, d.roots = some roots ∧ e.roots = some roots

namespace Contains

variable {p q : Program} (contains : Contains d e p q)
include contains

theorem roots : q.roots = p.roots.map (e.placeOf d) := by
  obtain ⟨roots, listed, otherListed⟩ := contains.listed
  exact positions_moved contains.distinct (contains.declares.roots roots listed)
    (contains.otherDeclares.roots roots otherListed)

theorem wellFormed (formed : q.graph.WellFormed q.roots) : p.graph.WellFormed p.roots := by
  rw [contains.roots] at formed
  refine formed.of_moved contains.declares.closed
    (fun position m found => contains.declares.moved contains.otherDeclares contains.distinct
      contains.contained found) fun root isRoot => ?_
  obtain ⟨roots, listed, _⟩ := contains.listed
  obtain ⟨id, isAt⟩ := exists_isAt (contains.declares.roots roots listed) root isRoot
  exact contains.declares.lt_size_of_isAt isAt

theorem unnamed_eq (formed : q.graph.WellFormed q.roots) (config : Config) :
    unnamed (generate p.graph p.roots config) = unnamed (generate q.graph q.roots config) := by
  have formedToo := contains.wellFormed formed
  rw [contains.roots] at formed ⊢
  refine generate_moved formedToo formed ⟨?_, fun position reached => ?_⟩ config
  · rw [contains.otherDeclares.vars, contains.declares.vars, contains.vars]
  · obtain ⟨root, isRoot, path⟩ := reached
    have inside := contains.declares.closed.lt_size_of_reaches (formedToo.roots root isRoot).1 path
    obtain ⟨m, found⟩ := Graph.exists_get? inside
    obtain ⟨n, otherFound, same⟩ := contains.declares.moved contains.otherDeclares
      contains.distinct contains.contained found
    exact ⟨m, n, found, otherFound, same⟩

end Contains

theorem Rearranges.mem_nodes_iff {added : List DocumentNode} (rearranges : d.Rearranges e added)
    {node : DocumentNode} : node ∈ e.nodes ↔ node ∈ d.nodes ∨ node ∈ added := by
  rw [rearranges.nodes.mem_iff, List.mem_append]

theorem Rearranges.contains {added : List DocumentNode} {p q : Program}
    (rearranges : d.Rearranges e added) (loaded : d.toProgram = .ok p)
    (otherLoaded : e.toProgram = .ok q) : Contains d e p q := by
  have spec := d.toProgram_spec
  have otherSpec := e.toProgram_spec
  rw [loaded] at spec
  rw [otherLoaded] at otherSpec
  exact ⟨spec.2.2, otherSpec.2.2, otherSpec.1,
    fun node known => rearranges.mem_nodes_iff.mpr (.inl known), rearranges.vars, rearranges.listed⟩

theorem Rearranges.symm (rearranges : d.Rearranges e []) : e.Rearranges d [] := by
  obtain ⟨roots, listed, otherListed⟩ := rearranges.listed
  have nodes := rearranges.nodes
  rw [List.append_nil] at nodes
  refine ⟨rearranges.vars.symm, ⟨roots, otherListed, listed⟩, ?_⟩
  rw [List.append_nil]
  exact nodes.symm

/-- With its nodes in another order a document still describes a program. -/
theorem Rearranges.exists_program (rearranges : d.Rearranges e []) {p : Program}
    (loaded : d.toProgram = .ok p) : ∃ q, e.toProgram = .ok q := by
  have spec := d.toProgram_spec
  rw [loaded] at spec
  obtain ⟨distinct, known, _⟩ := spec
  have nodes := rearranges.nodes
  rw [List.append_nil] at nodes
  have ids : e.ids.Perm d.ids := nodes.map _
  obtain ⟨roots, listed, otherListed⟩ := rearranges.listed
  have sound : e.ids.Nodup ∧ ∀ reference ∈ e.references, reference.target ∈ e.ids := by
    refine ⟨ids.nodup_iff.mpr distinct, fun reference refers => ids.mem_iff.mpr (known _ ?_)⟩
    have same : e.references.Perm d.references := by
      rw [references, references, listed, otherListed]
      exact (nodes.flatMap_right _).append_right _
    exact same.mem_iff.mp refers
  have otherSpec := e.toProgram_spec
  cases otherLoaded : e.toProgram with
  | error defect =>
      rw [otherLoaded] at otherSpec
      exact absurd sound otherSpec.not_sound
  | ok q => exact ⟨q, rfl⟩

end Document

open Document

/-- A text depends on what is reached from the roots, and not on where it stands: graphs in which
the same nodes are reached at other positions have the same text, or fail with the same error but
for what it calls a node. So do documents that list their roots, if their nodes are put into another
order, or nodes are added and the whole is still valid. -/
theorem generate_ignores_positions (config : Config) :
    (∀ (g h : Graph) (roots : List NodeId) (image : NodeId → NodeId),
      g.validate roots = .ok () → h.validate (roots.map image) = .ok () →
      g.MovesTo h roots image →
        unnamed (generate g roots config) = unnamed (generate h (roots.map image) config)) ∧
    (∀ (d e : Document) (added : List DocumentNode) (p q : Program), d.Rearranges e added →
      d.toProgram = .ok p → e.toProgram = .ok q → q.graph.validate q.roots = .ok () →
        p.graph.validate p.roots = .ok () ∧
          unnamed (generate p.graph p.roots config) = unnamed (generate q.graph q.roots config)) ∧
    ∀ (d e : Document) (p : Program), d.Rearranges e [] →
      d.toProgram = .ok p → p.graph.validate p.roots = .ok () →
        ∃ q, e.toProgram = .ok q ∧ q.graph.validate q.roots = .ok () ∧
          unnamed (generate p.graph p.roots config) =
            unnamed (generate q.graph q.roots config) := by
  refine ⟨fun g h roots image accepted otherAccepted moves => ?_,
    fun d e added p q rearranges loaded otherLoaded accepted => ?_,
    fun d e p rearranges loaded accepted => ?_⟩
  · exact generate_moved (Graph.validate_eq_ok_iff.mp accepted)
      (Graph.validate_eq_ok_iff.mp otherAccepted) moves config
  · have contains := rearranges.contains loaded otherLoaded
    have formed := Graph.validate_eq_ok_iff.mp accepted
    exact ⟨Graph.validate_eq_ok_iff.mpr (contains.wellFormed formed),
      contains.unnamed_eq formed config⟩
  · obtain ⟨q, otherLoaded⟩ := rearranges.exists_program loaded
    have backwards := rearranges.symm.contains otherLoaded loaded
    have formed := backwards.wellFormed (Graph.validate_eq_ok_iff.mp accepted)
    exact ⟨q, otherLoaded, Graph.validate_eq_ok_iff.mpr formed,
      (rearranges.contains loaded otherLoaded).unnamed_eq formed config⟩

/-- An assignment of a bit, as documents declare it. -/
def assignedBit : List DocumentNode := [
  ⟨"assign", "assign_block", .ofList [("var", .text "y")], [("NAME", some "bit")], [], none, false,
    some "on", true⟩,
  ⟨"bit", "one", ∅, [], [], none, true, none, true⟩]

def assignedBitProgram : Program where
  graph.nodes := #[
    { Node.blank "assign_block" .statement with
      key := "assign", comment := "on", fields := .ofList [("var", .text "y")]
      values := .ofList [("NAME", some 1)] },
    { Node.blank "one" .expression with key := "bit" }]
  graph.vars := []
  roots := [0]

/-- A bit that nothing refers to. -/
def spareBit : DocumentNode := ⟨"spare", "one", ∅, [], [], none, true, none, true⟩

/-- The same assignment behind its bit and before another. -/
def movedBitProgram : Program where
  graph.nodes := #[
    { Node.blank "one" .expression with key := "bit" },
    { Node.blank "assign_block" .statement with
      key := "assign", comment := "on", fields := .ofList [("var", .text "y")]
      values := .ofList [("NAME", some 0)] },
    { Node.blank "one" .expression with key := "spare" }]
  graph.vars := []
  roots := [1]

/-- A document that begins at the assignment. -/
def bitDocument (nodes : List DocumentNode) : Document := ⟨[], nodes, some ["assign"]⟩

theorem assignedBit_rearranged :
    (assignedBitProgram.graph.MovesTo movedBitProgram.graph [0] (1 - ·) ∧
      unnamed (generate assignedBitProgram.graph [0] .standard) =
        unnamed (generate movedBitProgram.graph [1] .standard)) ∧
    ((bitDocument assignedBit).Rearranges (bitDocument (assignedBit.reverse ++ [spareBit]))
        [spareBit] ∧
      assignedBitProgram.graph.validate [0] = .ok () ∧
      unnamed (generate assignedBitProgram.graph [0] .standard) =
        unnamed (generate movedBitProgram.graph [1] .standard)) ∧
    ∃ q, (bitDocument assignedBit.reverse).toProgram = .ok q ∧
      q.graph.validate q.roots = .ok () ∧
      unnamed (generate assignedBitProgram.graph [0] .standard) =
        unnamed (generate q.graph q.roots .standard) := by
  have loaded : (bitDocument assignedBit).toProgram = .ok assignedBitProgram := by rfl
  have accepted : assignedBitProgram.graph.validate [0] = .ok () := by cbv
  have otherLoaded : (bitDocument (assignedBit.reverse ++ [spareBit])).toProgram =
      .ok movedBitProgram := by rfl
  have otherAccepted : movedBitProgram.graph.validate [1] = .ok () := by cbv
  have moves : assignedBitProgram.graph.MovesTo movedBitProgram.graph [0] (1 - ·) := by
    refine ⟨rfl, fun id reached => ?_⟩
    obtain ⟨root, isRoot, path⟩ := reached
    have formed := Graph.validate_eq_ok_iff.mp accepted
    have inside : id < 2 := formed.closed.lt_size_of_reaches (formed.roots root isRoot).1 path
    obtain rfl | rfl := Nat.le_one_iff_eq_zero_or_eq_one.mp (Nat.lt_succ_iff.mp inside)
    · exact ⟨_, _, rfl, rfl, rfl, rfl, rfl, rfl, rfl, rfl, rfl, rfl⟩
    · exact ⟨_, _, rfl, rfl, rfl, rfl, rfl, rfl, rfl, rfl, rfl, rfl⟩
  have reordered : (assignedBit.reverse).Perm assignedBit := List.reverse_perm assignedBit
  have rearranges : (bitDocument assignedBit).Rearranges
      (bitDocument (assignedBit.reverse ++ [spareBit])) [spareBit] :=
    ⟨rfl, ⟨_, rfl, rfl⟩, reordered.append_right [spareBit]⟩
  have reversed : (bitDocument assignedBit).Rearranges (bitDocument assignedBit.reverse) [] := by
    refine ⟨rfl, ⟨_, rfl, rfl⟩, ?_⟩
    rw [List.append_nil]
    exact reordered
  obtain ⟨byMoving, byRearranging, byReversing⟩ := generate_ignores_positions .standard
  exact ⟨⟨moves, byMoving _ _ [0] (1 - ·) accepted otherAccepted moves⟩,
    ⟨rearranges, byRearranging _ _ [spareBit] _ _ rearranges loaded otherLoaded otherAccepted⟩,
    byReversing _ _ assignedBitProgram reversed loaded accepted⟩

end BlockVerilog
