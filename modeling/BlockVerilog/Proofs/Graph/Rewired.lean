import BlockVerilog.Proofs.Graph.WellFormed
import BlockVerilog.Proofs.Graph.Slots

/-!
Graphs with the same nodes and other links.

A graph inherits well-formedness from one that its nodes can be mapped to, if each of its links
becomes a way along links there. Links that are removed, or that skip nodes, are of this kind.
-/

namespace BlockVerilog

open Relation

namespace Node

/-- A node with other links: `value` says what becomes of those of its value slots, `statement` of
those of its statement slots and of `next`. -/
def rewire (value statement : Option NodeId → Option NodeId) (node : Node) : Node :=
  { node with
    values := node.values.mapValues value
    statements := node.statements.mapValues statement
    next := statement node.next }

end Node

namespace Graph

/-- The same nodes with other links. -/
def rewire (value statement : Option NodeId → Option NodeId) (g : Graph) : Graph :=
  { g with nodes := g.nodes.map (Node.rewire value statement) }

section

variable (value statement : Option NodeId → Option NodeId) (g : Graph)

@[simp] theorem get?_rewire (id : NodeId) :
    (g.rewire value statement).get? id = (g.get? id).map (Node.rewire value statement) := by
  simp [get?, rewire]

@[simp] theorem size_rewire : (g.rewire value statement).size = g.size := by
  simp [size, rewire]

end

/-- Well-formedness is inherited along a map of nodes that keeps their shapes and makes ways of
links. -/
theorem WellFormed.pullback {g h : Graph} {roots others : List NodeId}
    (formed : g.WellFormed roots) (image : NodeId → NodeId) (closed : h.Closed)
    (nodes : ∀ id node, h.get? id = some node → ∃ found, g.get? (image id) = some found ∧
      found.shape = node.shape ∧ (found.next = none → node.next = none))
    (values : ∀ source target, h.LinksValue source target →
      g.LinksValue (image source) (image target))
    (statements : ∀ source target, h.LinksStatement source target ∨ h.LinksNext source target →
      TransGen g.Links (image source) (image target) ∧
        ∃ last, g.LinksStatement last (image target) ∨ g.LinksNext last (image target))
    (begins : ∀ root ∈ others, root < h.size ∧ image root ∈ roots) : h.WellFormed others := by
  have leads : ∀ source target, h.Links source target →
      TransGen g.Links (image source) (image target) := by
    intro source target link
    rcases links_iff_slots.mp link with value | others
    · exact .single (values source target value).links
    · exact (statements source target others).1
  -- a node has the shape of its image
  have ofShape : ∀ {target shape} {found : Node}, target < h.size →
      g.get? (image target) = some found → found.shape = shape →
      ∃ child, h.get? target = some child ∧ child.shape = shape := by
    intro target shape found inside imageFound same
    obtain ⟨again, foundAgain, shapes, _⟩ := nodes target _ (get?_eq_some inside)
    obtain rfl := Option.some.inj (imageFound.symm.trans foundAgain)
    exact ⟨_, get?_eq_some inside, shapes.symm.trans same⟩
  refine ⟨closed, fun source target link => ?_, fun source target link => ?_,
    fun id node found shape => ?_, fun root listed => ⟨(begins root listed).1, fun id link => ?_⟩,
    fun id cycle => ?_⟩
  · obtain ⟨child, found, shape⟩ := formed.values _ _ (values source target link)
    exact ofShape (closed _ _ link.links) found shape
  · obtain ⟨last, lastLink⟩ := (statements source target link).2
    obtain ⟨child, found, shape⟩ := formed.statements _ _ lastLink
    exact ofShape (closed _ _ (links_iff_slots.mpr (.inr link))) found shape
  · obtain ⟨found, imageFound, shapes, noNext⟩ := nodes id node found
    exact noNext (formed.noNext _ found imageFound (shapes.trans shape))
  · obtain ⟨last, _, lastLink⟩ := TransGen.tail'_iff.mp (leads id root link)
    exact (formed.roots _ (begins root listed).2).2 last lastLink
  · exact formed.acyclic (image id) (TransGen.lift' image leads id id cycle)

section

variable {value statement : Option NodeId → Option NodeId} {g : Graph} {source target : NodeId}

theorem linksValue_of_rewire (empty : value none = none)
    (link : (g.rewire value statement).LinksValue source target) :
    ∃ child, g.LinksValue source child ∧ value (some child) = some target := by
  obtain ⟨_, found, hangs⟩ := link
  rw [get?_rewire, Option.map_eq_some_iff] at found
  obtain ⟨node, found, rfl⟩ := found
  obtain ⟨child, hung, holds⟩ := Slots.exists_of_mem_targets_mapValues empty hangs
  exact ⟨child, ⟨node, found, hung⟩, holds⟩

theorem linksStatement_of_rewire (empty : statement none = none)
    (link : (g.rewire value statement).LinksStatement source target) :
    ∃ head, g.LinksStatement source head ∧ statement (some head) = some target := by
  obtain ⟨_, found, hangs⟩ := link
  rw [get?_rewire, Option.map_eq_some_iff] at found
  obtain ⟨node, found, rfl⟩ := found
  obtain ⟨head, hung, holds⟩ := Slots.exists_of_mem_targets_mapValues empty hangs
  exact ⟨head, ⟨node, found, hung⟩, holds⟩

theorem linksNext_of_rewire (empty : statement none = none)
    (link : (g.rewire value statement).LinksNext source target) :
    ∃ following, g.LinksNext source following ∧ statement (some following) = some target := by
  obtain ⟨_, found, goes⟩ := link
  rw [get?_rewire, Option.map_eq_some_iff] at found
  obtain ⟨node, found, rfl⟩ := found
  change statement node.next = some target at goes
  cases held : node.next with
  | none => simp [held, empty] at goes
  | some following => exact ⟨following, ⟨node, found, held⟩, held ▸ goes⟩

/-- Well-formedness is kept if links to expressions are kept or removed, and links to statements
skip statements at most. -/
theorem WellFormed.rewire {roots : List NodeId} (formed : g.WellFormed roots)
    (valueEmpty : value none = none) (statementEmpty : statement none = none)
    (values : ∀ child target, value (some child) = some target → target = child)
    (statements : ∀ source head target, g.LinksStatement source head ∨ g.LinksNext source head →
      statement (some head) = some target → TransGen g.Links source target ∧
        ∃ last, g.LinksStatement last target ∨ g.LinksNext last target) :
    (g.rewire value statement).WellFormed roots := by
  have plugs : ∀ source target, (g.rewire value statement).LinksValue source target →
      g.LinksValue source target := by
    intro source target link
    obtain ⟨child, link, holds⟩ := linksValue_of_rewire valueEmpty link
    exact values child target holds ▸ link
  have others : ∀ source target, (g.rewire value statement).LinksStatement source target ∨
      (g.rewire value statement).LinksNext source target → TransGen g.Links source target ∧
        ∃ last, g.LinksStatement last target ∨ g.LinksNext last target := by
    rintro source target (link | link)
    · obtain ⟨head, link, holds⟩ := linksStatement_of_rewire statementEmpty link
      exact statements source head target (.inl link) holds
    · obtain ⟨head, link, holds⟩ := linksNext_of_rewire statementEmpty link
      exact statements source head target (.inr link) holds
  refine formed.pullback id (fun source target link => ?_) (fun id node found => ?_) plugs others
    fun root listed => ?_
  · rw [size_rewire]
    rcases links_iff_slots.mp link with link | link
    · exact formed.closed _ _ (plugs _ _ link).links
    · obtain ⟨last, _, lastLink⟩ := TransGen.tail'_iff.mp (others _ _ link).1
      exact formed.closed _ _ lastLink
  · rw [get?_rewire, Option.map_eq_some_iff] at found
    obtain ⟨node, found, rfl⟩ := found
    exact ⟨node, found, rfl, fun last => (congrArg statement last).trans statementEmpty⟩
  · rw [size_rewire]
    exact ⟨(formed.roots root listed).1, listed⟩

end

end Graph

end BlockVerilog
