import BlockVerilog.Proofs.Graph.Running
import BlockVerilog.Proofs.Handlers.Check

/-!
The check of a handler table as a recursive walk.

`faults` lists the faults of a node and of all that lies behind it, a shared node once for every way
to it. In a graph without cycles the check gives the first of them: a node that is met again has
nothing behind it that is still to be looked at.
-/

namespace BlockVerilog.HandlerTable

open Relation BlockVerilog.Graph

variable {table : HandlerTable} {g : Graph}

/-- What a table holds against a node; nothing against a disabled one. -/
def faultAt? (table : HandlerTable) (node : Node) : Option PassError :=
  if node.enabled then table.fault? node else none

/-- The faults on the ways of at most `depth` nodes from a node, each node before those behind
it. -/
def faultsWithin (table : HandlerTable) (g : Graph) : (depth : Nat) → NodeId → List PassError
  | 0, _ => []
  | depth + 1, id =>
      match g.get? id with
      | none => []
      | some node =>
          (table.faultAt? node).toList ++ (follow node).flatMap (faultsWithin table g depth)

def faults (table : HandlerTable) (g : Graph) (id : NodeId) : List PassError :=
  table.faultsWithin g g.size id

theorem faultsWithin_succ {depth : Nat} {id : NodeId} {node : Node}
    (found : g.get? id = some node) : table.faultsWithin g (depth + 1) id =
      (table.faultAt? node).toList ++ (follow node).flatMap (table.faultsWithin g depth) := by
  rw [faultsWithin, found]

theorem faultsWithin_congr (closed : g.Closed) (acyclic : g.Acyclic) {first second : Nat}
    {id : NodeId} (enough : g.Suffices (first, id)) (alsoEnough : g.Suffices (second, id)) :
    table.faultsWithin g first id = table.faultsWithin g second id := by
  induction first generalizing second id with
  | zero => exact absurd enough.pos (Nat.lt_irrefl 0)
  | succ first inductionHypothesis =>
      cases second with
      | zero => exact absurd alsoEnough.pos (Nat.lt_irrefl 0)
      | succ second =>
          have found := get?_eq_some enough.1
          rw [faultsWithin_succ found, faultsWithin_succ found]
          refine congrArg _ (List.flatMap_congr fun target behind => ?_)
          have link := Follows.links ⟨_, found, behind⟩
          exact inductionHypothesis (enough.of_links closed acyclic link)
            (alsoEnough.of_links closed acyclic link)

theorem faults_eq (closed : g.Closed) (acyclic : g.Acyclic) {id : NodeId} {node : Node}
    (found : g.get? id = some node) :
    table.faults g id = (table.faultAt? node).toList ++ (follow node).flatMap (table.faults g) := by
  have inside := lt_size_of_get?_eq_some found
  have enough : g.Suffices (g.size, id) := ⟨inside, extent_le_size id⟩
  have more : g.Suffices (g.size + 1, id) := ⟨inside, (extent_le_size id).trans (Nat.le_succ _)⟩
  rw [faults, faultsWithin_congr closed acyclic enough more, faultsWithin_succ found]
  rfl

def firstOf : List PassError → Except PassError Unit
  | [] => .ok ()
  | e :: _ => .error e

/-- What lies behind a node that was seen has no faults, unless they lie behind one of the nodes
that are looked at next, which are all behind it. -/
def Cleared (table : HandlerTable) (g : Graph) (unseen work : List NodeId) : Prop :=
  ∀ id, id < g.size → id ∉ unseen → ∃ pending later, work = pending ++ later ∧
    (∀ target ∈ pending, TransGen g.Links id target) ∧
      (pending.flatMap (table.faults g) = [] → table.faults g id = [])

namespace Cleared

variable {unseen work : List NodeId} {id : NodeId}

/-- A node that is met again has no faults behind it: nothing that waits can lie behind it. -/
theorem faults_eq_nil (acyclic : g.Acyclic) (cleared : Cleared table g unseen (id :: work))
    (inside : id < g.size) (seen : id ∉ unseen) : table.faults g id = [] := by
  obtain ⟨pending, later, split, behind, clear⟩ := cleared id inside seen
  cases pending with
  | nil => exact clear rfl
  | cons first pending =>
      obtain ⟨rfl, _⟩ := List.cons.inj split
      exact absurd (behind id List.mem_cons_self) (acyclic id)

/-- The node that is looked at next gives way to what lies behind it. -/
theorem replace {instead : List NodeId} {other : NodeId}
    (behind : ∀ target ∈ instead, TransGen g.Links id target)
    (same : instead.flatMap (table.faults g) = [] → table.faults g id = [])
    (cleared : ∃ pending later, id :: work = pending ++ later ∧
      (∀ target ∈ pending, TransGen g.Links other target) ∧
        (pending.flatMap (table.faults g) = [] → table.faults g other = [])) :
    ∃ pending later, instead ++ work = pending ++ later ∧
      (∀ target ∈ pending, TransGen g.Links other target) ∧
        (pending.flatMap (table.faults g) = [] → table.faults g other = []) := by
  obtain ⟨pending, later, split, behindOther, clear⟩ := cleared
  cases pending with
  | nil => exact ⟨[], instead ++ work, rfl, by simp, clear⟩
  | cons first pending =>
      obtain ⟨rfl, rfl⟩ := List.cons.inj split
      rw [List.forall_mem_cons] at behindOther
      refine ⟨instead ++ pending, later, by simp, List.forall_mem_append.mpr
        ⟨fun target listed => behindOther.1.trans (behind target listed), behindOther.2⟩,
        fun none => clear ?_⟩
      rw [List.flatMap_append, List.append_eq_nil_iff] at none
      rw [List.flatMap_cons, same none.1, none.2]
      rfl

theorem skip (acyclic : g.Acyclic) (cleared : Cleared table g unseen (id :: work))
    (inside : id < g.size) (seen : id ∉ unseen) : Cleared table g unseen work := by
  intro other otherInside otherSeen
  have nothing : ∀ target ∈ ([] : List NodeId), TransGen g.Links id target := by simp
  exact replace nothing (fun _ => cleared.faults_eq_nil acyclic inside seen)
    (cleared other otherInside otherSeen)

theorem visit (closed : g.Closed) (acyclic : g.Acyclic) {node : Node}
    (cleared : Cleared table g unseen (id :: work)) (found : g.get? id = some node)
    (faultless : table.faultAt? node = none) :
    Cleared table g (unseen.erase id) (follow node ++ work) := by
  have behind : ∀ target ∈ follow node, TransGen g.Links id target := fun target listed =>
    .single (Follows.links ⟨node, found, listed⟩)
  have same : table.faults g id = (follow node).flatMap (table.faults g) := by
    rw [faults_eq closed acyclic found, faultless]
    rfl
  intro other inside gone
  by_cases here : other = id
  · subst here
    exact ⟨follow node, work, rfl, behind, fun none => same.trans none⟩
  · have seen : other ∉ unseen := fun still => gone ((List.mem_erase_of_ne here).mpr still)
    exact replace behind (fun none => same.trans none) (cleared other inside seen)

end Cleared

/-- A check in progress gives the first fault on the walk from the nodes that wait. -/
theorem checkFrom_eq (closed : g.Closed) (acyclic : g.Acyclic) {unseen work : List NodeId}
    (inside : ∀ id ∈ work, id < g.size) (cleared : Cleared table g unseen work) :
    table.checkFrom g unseen work = firstOf (work.flatMap (table.faults g)) := by
  fun_induction checkFrom table g unseen work with
  | case1 => rfl
  | case2 unseen id work waiting absent =>
      rw [get?_eq_some (inside id List.mem_cons_self)] at absent
      cases absent
  | case3 unseen id work waiting node found fault faulty =>
      have own : table.faultAt? node = some fault := faulty
      rw [List.flatMap_cons, faults_eq closed acyclic found, own]
      rfl
  | case4 unseen id work waiting node found faultless inductionHypothesis =>
      have own : table.faultAt? node = none := faultless
      rw [inductionHypothesis _ (cleared.visit closed acyclic found own), List.flatMap_append,
        List.flatMap_cons, faults_eq closed acyclic found, own]
      · rfl
      · rw [List.forall_mem_cons] at inside
        refine List.forall_mem_append.mpr ⟨fun target behind => ?_, inside.2⟩
        exact closed _ _ (Follows.links ⟨node, found, behind⟩)
  | case5 unseen id work seen inductionHypothesis =>
      rw [List.forall_mem_cons] at inside
      rw [inductionHypothesis inside.2 (cleared.skip acyclic inside.1 seen), List.flatMap_cons,
        cleared.faults_eq_nil acyclic inside.1 seen]
      rfl

/-- The check of a table gives the first fault on the walk from the roots. -/
theorem check_eq_firstOf (closed : g.Closed) (acyclic : g.Acyclic) {roots : List NodeId}
    (inside : ∀ root ∈ roots, root < g.size) :
    table.check g roots = firstOf (roots.flatMap (table.faults g)) := by
  refine checkFrom_eq closed acyclic inside fun id inGraph seen => ?_
  exact absurd (mem_ids.mpr inGraph) seen

/-- The faults of an enabled node and of what hangs in its slots. -/
def faultsInside (table : HandlerTable) (g : Graph) (id : NodeId) : List PassError :=
  match g.get? id with
  | none => []
  | some node => (table.fault? node).toList ++ node.values.targets.flatMap (table.faults g) ++
      node.statements.targets.flatMap (table.faults g)

/-- The faults behind a slot are those of the nodes that run there. -/
theorem faults_running (table : HandlerTable) (closed : g.Closed) (acyclic : g.Acyclic)
    {held : Option NodeId} (inside : ∀ id ∈ held, id < g.size) :
    held.toList.flatMap (table.faults g) = (g.running held).flatMap (table.faultsInside g) := by
  refine follow_induction closed acyclic rfl (fun id inGraph inductionHypothesis => ?_) inside
  have found := get?_eq_some inGraph
  have follows : g.following id = (g.nodes[id]).next := by rw [following, found]; rfl
  rw [running_some closed acyclic inGraph, List.flatMap_append, ← inductionHypothesis, follows,
    Option.toList_some, List.flatMap_cons, List.flatMap_nil, List.append_nil,
    faults_eq closed acyclic found]
  cases enabled : (g.nodes[id]).enabled with
  | false => simp [faultAt?, follow, isEnabled_of_get? found, enabled]
  | true =>
      simp [faultAt?, follow, isEnabled_of_get? found, enabled, Node.successors, faultsInside,
        found]

end BlockVerilog.HandlerTable
