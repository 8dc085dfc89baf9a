import Mathlib.Data.Finset.Card
import Mathlib.Data.Finset.Range
import Mathlib.Data.List.Permutation
import Mathlib.Logic.Relation
import BlockVerilog.Graph.Validation
import BlockVerilog.Pass.Comments
import BlockVerilog.Proofs.Graph.Slots

/-!
Which nodes of a graph lead to which, and how many a node leads to.

The number of nodes that a node leads to falls along every link that lies on no cycle. It is the
measure of everything that walks down a graph.
-/

namespace BlockVerilog

namespace Graph

open Relation

/-- A slot or `next` of a node refers to another. -/
def Links (g : Graph) (source target : NodeId) : Prop := target ∈ g.successors source

/-- A value slot of a node refers to another. -/
def LinksValue (g : Graph) (source target : NodeId) : Prop :=
  ∃ node, g.get? source = some node ∧ target ∈ node.values.targets

/-- A statement slot of a node refers to another. -/
def LinksStatement (g : Graph) (source target : NodeId) : Prop :=
  ∃ node, g.get? source = some node ∧ target ∈ node.statements.targets

/-- A statement follows another. -/
def LinksNext (g : Graph) (source target : NodeId) : Prop :=
  ∃ node, g.get? source = some node ∧ node.next = some target

/-- No node reaches itself along one or more links. -/
def Acyclic (g : Graph) : Prop := ∀ id, ¬ TransGen g.Links id id

/-- Links stay inside the graph. -/
def Closed (g : Graph) : Prop := ∀ source target, g.Links source target → target < g.size

theorem links_iff {g : Graph} {source target : NodeId} :
    g.Links source target ↔
      ∃ node, g.get? source = some node ∧ target ∈ node.successors := by
  unfold Links successors
  cases g.get? source with
  | none => simp
  | some node => simp

theorem mem_successors {node : Node} {target : NodeId} :
    target ∈ node.successors ↔
      target ∈ node.values.targets ∨ target ∈ node.statements.targets ∨
        node.next = some target := by
  simp [Node.successors]

theorem links_iff_slots {g : Graph} {source target : NodeId} :
    g.Links source target ↔
      g.LinksValue source target ∨ g.LinksStatement source target ∨
        g.LinksNext source target := by
  simp only [links_iff, mem_successors, LinksValue, LinksStatement, LinksNext]
  constructor
  · rintro ⟨node, found, value | statement | next⟩
    · exact .inl ⟨node, found, value⟩
    · exact .inr (.inl ⟨node, found, statement⟩)
    · exact .inr (.inr ⟨node, found, next⟩)
  · rintro (⟨node, found, value⟩ | ⟨node, found, statement⟩ | ⟨node, found, next⟩)
    · exact ⟨node, found, .inl value⟩
    · exact ⟨node, found, .inr (.inl statement)⟩
    · exact ⟨node, found, .inr (.inr next)⟩

theorem LinksValue.links {g : Graph} {source target : NodeId}
    (link : g.LinksValue source target) : g.Links source target :=
  links_iff_slots.mpr (.inl link)

theorem LinksStatement.links {g : Graph} {source target : NodeId}
    (link : g.LinksStatement source target) : g.Links source target :=
  links_iff_slots.mpr (.inr (.inl link))

theorem LinksNext.links {g : Graph} {source target : NodeId}
    (link : g.LinksNext source target) : g.Links source target :=
  links_iff_slots.mpr (.inr (.inr link))

theorem Links.source_lt_size {g : Graph} {source target : NodeId}
    (link : g.Links source target) : source < g.size := by
  obtain ⟨node, found, _⟩ := links_iff.mp link
  exact lt_size_of_get?_eq_some found

theorem mem_valueTargets {g : Graph} {source target : NodeId} :
    target ∈ g.valueTargets source ↔ g.LinksValue source target := by
  unfold valueTargets LinksValue
  cases g.get? source with
  | none => simp
  | some node => simp

section

variable (links : NodeId → NodeId → Prop) (size : Nat)

open Classical in
/-- The ids below `size` that an id leads to, itself included. -/
noncomputable def reach (id : NodeId) : Finset NodeId :=
  (Finset.range size).filter (ReflTransGen links id)

/-- How many ids below `size` an id leads to. -/
noncomputable def extent (id : NodeId) : Nat := (reach links size id).card

variable {links size}

@[simp] theorem mem_reach {source target : NodeId} :
    target ∈ reach links size source ↔ target < size ∧ ReflTransGen links source target := by
  simp [reach]

theorem extent_le_size (id : NodeId) : extent links size id ≤ size := by
  calc extent links size id ≤ (Finset.range size).card :=
        Finset.card_le_card fun target reached => Finset.mem_range.mpr (mem_reach.mp reached).1
    _ = size := Finset.card_range size

theorem extent_pos {id : NodeId} (inside : id < size) : 0 < extent links size id :=
  Finset.card_pos.mpr ⟨id, mem_reach.mpr ⟨inside, .refl⟩⟩

theorem extent_le_of_reaches {source target : NodeId} (path : ReflTransGen links source target) :
    extent links size target ≤ extent links size source :=
  Finset.card_le_card fun _ reached =>
    mem_reach.mpr ⟨(mem_reach.mp reached).1, path.trans (mem_reach.mp reached).2⟩

/-- Along a link that lies on no cycle the source is lost. -/
theorem extent_lt_of_link {source target : NodeId} (link : links source target)
    (inside : source < size) (noCycle : ¬ TransGen links source source) :
    extent links size target < extent links size source := by
  apply Finset.card_lt_card
  rw [Finset.ssubset_iff_subset_ne]
  constructor
  · intro other reached
    exact mem_reach.mpr ⟨(mem_reach.mp reached).1, (mem_reach.mp reached).2.head link⟩
  · intro same
    have returned : source ∈ reach links size target :=
      same ▸ mem_reach.mpr ⟨inside, .refl⟩
    exact noCycle (TransGen.head' link (mem_reach.mp returned).2)

end

end Graph

end BlockVerilog
