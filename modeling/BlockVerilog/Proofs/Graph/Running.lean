import BlockVerilog.Proofs.Graph.Loops

/-!
The nodes of a chain that generation runs: those that are not disabled.

`running_some` is the equation of the walk along `next`; proofs about chains go along it by
`follow_induction` and never look at the bound that `chain` carries.
-/

namespace BlockVerilog.Graph

open Relation Loop

variable {g : Graph}

/-- Whether there is an enabled node with an id. -/
def isEnabled (g : Graph) (id : NodeId) : Bool := (g.get? id).any Node.enabled

/-- Whether there is a disabled node with an id. -/
def isDisabled (g : Graph) (id : NodeId) : Bool := (g.get? id).any fun node => !node.enabled

/-- The enabled nodes of the chain in a slot, in order; none for an empty slot. -/
def running (g : Graph) (head : Option NodeId) : List NodeId :=
  (head.toList.flatMap fun id => (g.chain id).1).filter g.isEnabled

theorem exists_get? {id : NodeId} (inside : id < g.size) : ∃ node, g.get? id = some node :=
  ⟨_, get?_eq_some inside⟩

theorem isEnabled_iff {id : NodeId} :
    g.isEnabled id = true ↔ ∃ node, g.get? id = some node ∧ node.enabled = true := by
  unfold isEnabled
  cases g.get? id <;> simp

theorem isEnabled_of_get? {id : NodeId} {node : Node} (found : g.get? id = some node) :
    g.isEnabled id = node.enabled := by
  simp [isEnabled, found]

theorem isDisabled_of_get? {id : NodeId} {node : Node} (found : g.get? id = some node) :
    g.isDisabled id = !node.enabled := by
  simp [isDisabled, found]

@[simp] theorem running_none : g.running none = [] := rfl

theorem chain_eq (closed : g.Closed) (acyclic : g.Acyclic) {id : NodeId} (inside : id < g.size) :
    (g.chain id).1 = id :: (g.following id).toList.flatMap fun next => (g.chain next).1 := by
  have visits := visits_chain closed acyclic inside
  cases follows : g.following id with
  | none => exact visits.unique (.last follows)
  | some next =>
      have link := (following_eq_some_iff.mp follows).links
      refine visits.unique (.next follows ?_)
      rw [Option.toList_some, List.flatMap_cons, List.flatMap_nil, List.append_nil]
      exact visits_chain closed acyclic (closed _ _ link)

theorem running_some (closed : g.Closed) (acyclic : g.Acyclic) {id : NodeId}
    (inside : id < g.size) :
    g.running (some id) = [id].filter g.isEnabled ++ g.running (g.following id) := by
  rw [running, Option.toList_some, List.flatMap_cons, List.flatMap_nil, List.append_nil,
    chain_eq closed acyclic inside, running, ← List.filter_append]
  rfl

theorem running_of_following_eq_none (closed : g.Closed) (acyclic : g.Acyclic) {id : NodeId}
    (inside : id < g.size) (last : g.following id = none) :
    g.running (some id) = [id].filter g.isEnabled := by
  rw [running_some closed acyclic inside, last, running_none, List.append_nil]

theorem WellFormed.following_eq_none {roots : List NodeId} (formed : g.WellFormed roots)
    {id : NodeId} {node : Node} (found : g.get? id = some node) (shape : node.shape = .expression) :
    g.following id = none := by
  rw [following, found]
  exact formed.noNext id node found shape

theorem WellFormed.following_of_value {roots : List NodeId} (formed : g.WellFormed roots)
    {id child : NodeId} {node : Node} {slot : String} (found : g.get? id = some node)
    (holds : node.values.target? slot = some child) : g.following child = none := by
  obtain ⟨held, heldFound, shape⟩ :=
    formed.values id child ⟨node, found, Slots.mem_targets_of_target? holds⟩
  exact formed.following_eq_none heldFound shape

theorem mem_running {held : Option NodeId} {id : NodeId} (member : id ∈ g.running held) :
    g.isEnabled id = true ∧ ∃ head, held = some head ∧ ReflTransGen g.LinksNext head id := by
  obtain ⟨listed, enabled⟩ := List.mem_filter.mp member
  obtain ⟨head, isHead, onChain⟩ := List.mem_flatMap.mp listed
  exact ⟨enabled, head, Option.mem_toList.mp isHead, reaches_of_mem_chain onChain⟩

/-- What holds of no node, and of a node if it holds of the one that follows, holds of every node of
a graph without cycles. -/
@[elab_as_elim]
theorem follow_induction (closed : g.Closed) (acyclic : g.Acyclic) {motive : Option NodeId → Prop}
    (none : motive none) (some : ∀ id, id < g.size → motive (g.following id) → motive (some id))
    {held : Option NodeId} (inside : ∀ id ∈ held, id < g.size) : motive held := by
  cases held with
  | none => exact none
  | some head =>
      have visits := visits_chain closed acyclic (inside head rfl)
      replace inside := inside head rfl
      generalize (g.chain head).1 = trace at visits
      induction visits with
      | last stops => exact some _ inside (stops ▸ none)
      | next goes _ inductionHypothesis =>
          have link := (following_eq_some_iff.mp goes).links
          exact some _ inside (goes ▸ inductionHypothesis (closed _ _ link))

end BlockVerilog.Graph
