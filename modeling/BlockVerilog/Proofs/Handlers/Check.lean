import BlockVerilog.Proofs.Graph.Loops
import BlockVerilog.Pass.Handler

/-!
What the check of a handler table looks at.

The check follows every link of an enabled node, and from a disabled one only `next`. It refuses a
table exactly if one of the enabled nodes that it reaches this way has no handler of its shape.
-/

namespace BlockVerilog

open Relation

namespace Graph

/-- The check of a table goes on from a node to another. -/
def Follows (g : Graph) (source target : NodeId) : Prop :=
  ∃ node, g.get? source = some node ∧ target ∈ HandlerTable.follow node

/-- The check of a table gets to a node. -/
def IsLive (g : Graph) (roots : List NodeId) (id : NodeId) : Prop :=
  ∃ root ∈ roots, ReflTransGen g.Follows root id

variable {g : Graph} {roots : List NodeId}

theorem Follows.links {source target : NodeId} (follows : g.Follows source target) :
    g.Links source target := by
  obtain ⟨node, found, member⟩ := follows
  refine links_iff.mpr ⟨node, found, mem_successors.mpr ?_⟩
  unfold HandlerTable.follow at member
  split at member
  next => exact mem_successors.mp member
  next => exact .inr (.inr (Option.mem_toList.mp member))

theorem isLive_of_mem {root : NodeId} (listed : root ∈ roots) : g.IsLive roots root :=
  ⟨root, listed, .refl⟩

theorem IsLive.tail {source target : NodeId} (live : g.IsLive roots source)
    (follows : g.Follows source target) : g.IsLive roots target := by
  obtain ⟨root, listed, path⟩ := live
  exact ⟨root, listed, path.tail follows⟩

theorem IsLive.reaches {target : NodeId} (live : g.IsLive roots target) :
    ∃ root ∈ roots, ReflTransGen g.Links root target := by
  obtain ⟨root, listed, path⟩ := live
  exact ⟨root, listed, path.lift id fun _ _ => Follows.links⟩

end Graph

namespace HandlerTable

open BlockVerilog.Graph

variable {table : HandlerTable} {g : Graph} {roots unseen work : List NodeId}

/-- A check in progress: what is not `unseen` has no fault, and what lies behind it was seen too or
is still to be looked at. -/
structure Sweep (table : HandlerTable) (g : Graph) (roots unseen work : List NodeId) : Prop where
  nodup : unseen.Nodup
  live : ∀ id ∈ work, g.IsLive roots id
  begun : ∀ root ∈ roots, root ∉ unseen ∨ root ∈ work
  faultless : ∀ id node, g.get? id = some node → id ∉ unseen → node.enabled = true →
    table.fault? node = none
  behind : ∀ id node, g.get? id = some node → id ∉ unseen → ∀ target ∈ follow node,
    target ∉ unseen ∨ target ∈ work

namespace Sweep

theorem start (g : Graph) (roots : List NodeId) (inside : ∀ id node, g.get? id = some node →
    id ∈ g.ids) : Sweep table g roots g.ids roots where
  nodup := List.nodup_range
  live _ listed := isLive_of_mem listed
  begun _ listed := .inr listed
  faultless id node found seen _ := absurd (inside id node found) seen
  behind id node found seen := absurd (inside id node found) seen

/-- A node that was seen before is passed over. -/
theorem skip {id : NodeId} (sweep : Sweep table g roots unseen (id :: work))
    (seen : id ∉ unseen) : Sweep table g roots unseen work := by
  have drop : ∀ target, target ∉ unseen ∨ target ∈ id :: work →
      target ∉ unseen ∨ target ∈ work := by
    rintro target (already | waiting)
    · exact .inl already
    · rcases List.mem_cons.mp waiting with rfl | later
      · exact .inl seen
      · exact .inr later
  exact ⟨sweep.nodup, fun other later => sweep.live other (List.mem_cons_of_mem id later),
    fun root listed => drop root (sweep.begun root listed), sweep.faultless,
    fun source node found already target follows =>
      drop target (sweep.behind source node found already target follows)⟩

/-- A node without fault is taken off, and what lies behind it is put in front. -/
theorem visit {id : NodeId} {node : Node} (sweep : Sweep table g roots unseen (id :: work))
    (found : g.get? id = some node) (faultless : node.enabled = true → table.fault? node = none) :
    Sweep table g roots (unseen.erase id) (follow node ++ work) := by
  have isLive := sweep.live id List.mem_cons_self
  have shift : ∀ target, target ∉ unseen ∨ target ∈ id :: work →
      target ∉ unseen.erase id ∨ target ∈ follow node ++ work := by
    rintro target (already | waiting)
    · exact .inl fun still => already (List.mem_of_mem_erase still)
    · rcases List.mem_cons.mp waiting with rfl | later
      · exact .inl sweep.nodup.not_mem_erase
      · exact .inr (List.mem_append_right _ later)
  -- a node that is not unseen any more is the one taken off, or was seen before
  have seenBefore : ∀ other, other ∉ unseen.erase id → other = id ∨ other ∉ unseen := by
    intro other gone
    by_cases same : other = id
    · exact .inl same
    · exact .inr fun still => gone ((List.mem_erase_of_ne same).mpr still)
  refine ⟨sweep.nodup.erase id, fun target listed => ?_,
    fun root listed => shift root (sweep.begun root listed), fun other node' found' gone => ?_,
    fun other node' found' gone target follows => ?_⟩
  · rcases List.mem_append.mp listed with follows | later
    · exact isLive.tail ⟨node, found, follows⟩
    · exact sweep.live target (List.mem_cons_of_mem id later)
  · rcases seenBefore other gone with rfl | already
    · obtain rfl := Option.some.inj (found.symm.trans found')
      exact faultless
    · exact sweep.faultless other node' found' already
  · rcases seenBefore other gone with rfl | already
    · obtain rfl := Option.some.inj (found.symm.trans found')
      exact .inr (List.mem_append_left work follows)
    · exact shift target (sweep.behind other node' found' already target follows)

theorem seen_of_live {id : NodeId} (sweep : Sweep table g roots unseen [])
    (live : g.IsLive roots id) : id ∉ unseen := by
  obtain ⟨root, listed, path⟩ := live
  induction path with
  | refl => exact (sweep.begun root listed).resolve_right List.not_mem_nil
  | tail _ follows inductionHypothesis =>
      obtain ⟨node, found, member⟩ := follows
      exact (sweep.behind _ node found inductionHypothesis _ member).resolve_right List.not_mem_nil

end Sweep

/-- A check that succeeds has seen every live node; one that fails gives the fault of one. -/
theorem checkFrom_spec (sweep : Sweep table g roots unseen work)
    (present : ∀ id ∈ unseen, id < g.size) :
    match table.checkFrom g unseen work with
    | .ok () => ∃ final, Sweep table g roots final []
    | .error e => ∃ id node, g.IsLive roots id ∧ g.get? id = some node ∧ node.enabled = true ∧
        table.fault? node = some e := by
  fun_induction checkFrom table g unseen work with
  | case1 unseen => exact ⟨unseen, sweep⟩
  | case2 unseen id work waiting absent inductionHypothesis =>
      rw [get?_eq_some (present id waiting)] at absent
      cases absent
  | case3 unseen id work waiting node found fault faulty =>
      split at faulty
      next enabled => exact ⟨id, node, sweep.live id List.mem_cons_self, found, enabled, faulty⟩
      next => cases faulty
  | case4 unseen id work waiting node found faultless inductionHypothesis =>
      refine inductionHypothesis (sweep.visit found fun enabled => ?_)
        fun other still => present other (List.mem_of_mem_erase still)
      rwa [dif_pos enabled] at faultless
  | case5 unseen id work seen inductionHypothesis =>
      exact inductionHypothesis (sweep.skip seen) present

/-- A table passes the check exactly if each enabled live node has a handler of its shape. -/
theorem check_eq_ok_iff :
    table.check g roots = .ok () ↔ ∀ id node, g.IsLive roots id → g.get? id = some node →
      node.enabled = true → table.fault? node = none := by
  have inside : ∀ id node, g.get? id = some node → id ∈ g.ids := fun _ _ found =>
    mem_ids.mpr (lt_size_of_get?_eq_some found)
  have sweep : Sweep table g roots g.ids roots := Sweep.start g roots inside
  have spec := checkFrom_spec sweep fun _ listed => mem_ids.mp listed
  constructor
  · intro checked id node live found enabled
    rw [show table.checkFrom g g.ids roots = .ok () from checked] at spec
    obtain ⟨final, sweep⟩ := spec
    exact sweep.faultless id node found (sweep.seen_of_live live) enabled
  · intro faultless
    unfold check
    cases outcome : table.checkFrom g g.ids roots with
    | ok => rfl
    | error e =>
        rw [outcome] at spec
        obtain ⟨id, node, live, found, enabled, faulty⟩ := spec
        rw [faultless id node live found enabled] at faulty
        cases faulty

theorem fault?_eq_none_iff {node : Node} :
    table.fault? node = none ↔ ∃ handler, table.get? node.kind = some handler ∧
      handler.shape = node.shape := by
  unfold fault?
  cases table.get? node.kind with
  | none => simp
  | some handler => simp

end HandlerTable

end BlockVerilog
