import Mathlib.Data.List.Chain
import Mathlib.Data.List.Nodup
import BlockVerilog.Proofs.Graph.Reachability

/-!
The search for cycles is right in both answers: it ends well exactly on graphs without cycles, and
the node it names otherwise lies on one.

`SearchState` is what holds between two steps of a search. A settled node is neither unvisited nor
on the path. Settled nodes lead to settled nodes only, so that a node which is settled last of all
its successors cannot lie on a cycle.
-/

namespace BlockVerilog.Graph

open Relation

/-- The nodes of a path, the innermost first. -/
def trail (path : List Frame) : List NodeId := path.map Frame.node

@[simp] theorem trail_nil : trail [] = [] := rfl

@[simp] theorem trail_cons (frame : Frame) (path : List Frame) :
    trail (frame :: path) = frame.node :: trail path := rfl

/-- A search is done with a node. -/
def Settled (g : Graph) (unvisited : List NodeId) (path : List Frame) (id : NodeId) : Prop :=
  id < g.size ∧ id ∉ unvisited ∧ id ∉ trail path

/-- Each link of a frame is pending, leads to a settled node, or to the frame inside. -/
def Accounted (g : Graph) (settled : NodeId → Prop) : (inner : Option NodeId) → List Frame → Prop
  | _, [] => True
  | inner, frame :: path =>
      (∀ target, g.Links frame.node target →
        target ∈ frame.pending ∨ settled target ∨ inner = some target) ∧
      Accounted g settled (some frame.node) path

theorem Accounted.mono {g : Graph} {settled settledAfter : NodeId → Prop}
    {inner : Option NodeId} {path : List Frame} (accounted : Accounted g settled inner path)
    (kept : ∀ id, settled id → settledAfter id) : Accounted g settledAfter inner path := by
  induction path generalizing inner with
  | nil => trivial
  | cons frame path inductionHypothesis =>
      refine ⟨fun target link => ?_, inductionHypothesis accounted.2⟩
      exact (accounted.1 target link).imp_right (Or.imp_left (kept target))

/-- Once the inner frame is settled, nothing needs to be said about it. -/
theorem Accounted.settle {g : Graph} {settled settledAfter : NodeId → Prop} {node : NodeId}
    {path : List Frame} (accounted : Accounted g settled (some node) path)
    (kept : ∀ id, settled id → settledAfter id) (nodeSettled : settledAfter node) :
    Accounted g settledAfter none path := by
  cases path with
  | nil => trivial
  | cons frame path =>
      refine ⟨fun target link => ?_, accounted.2.mono kept⟩
      rcases accounted.1 target link with pending | settledTarget | isInner
      · exact .inl pending
      · exact .inr (.inl (kept target settledTarget))
      · exact .inr (.inl (Option.some.inj isInner ▸ nodeSettled))

/-- What holds between two steps of a search. -/
structure SearchState (g : Graph) (unvisited : List NodeId) (path : List Frame) : Prop where
  nodup : unvisited.Nodup
  distinct : (trail path).Nodup
  fresh : ∀ id ∈ trail path, id ∉ unvisited
  inside : ∀ id ∈ trail path, id < g.size
  pending : ∀ frame ∈ path, ∀ target ∈ frame.pending, g.Links frame.node target
  linked : path.IsChain fun inner outer => g.Links outer.node inner.node
  accounted : Accounted g (g.Settled unvisited path) none path
  closed : ∀ id target, g.Settled unvisited path id → g.Links id target →
    g.Settled unvisited path target
  acyclic : ∀ id, g.Settled unvisited path id → ¬ TransGen g.Links id id

namespace SearchState

variable {g : Graph} {unvisited : List NodeId} {node child : NodeId} {pending : List NodeId}
  {path : List Frame}

/-- Settled nodes lead to settled nodes. -/
theorem settled_of_reaches (state : g.SearchState unvisited path) {source target : NodeId}
    (settled : g.Settled unvisited path source) (reaches : ReflTransGen g.Links source target) :
    g.Settled unvisited path target := by
  induction reaches with
  | refl => exact settled
  | tail _ link inductionHypothesis => exact state.closed _ _ inductionHypothesis link

theorem leave (state : g.SearchState unvisited (⟨node, []⟩ :: path)) :
    g.SearchState unvisited path := by
  have distinct := List.nodup_cons.mp state.distinct
  have kept : ∀ id, g.Settled unvisited (⟨node, []⟩ :: path) id → g.Settled unvisited path id :=
    fun id settled => ⟨settled.1, settled.2.1, fun onPath =>
      settled.2.2 (List.mem_cons_of_mem node onPath)⟩
  have nodeSettled : g.Settled unvisited path node :=
    ⟨state.inside node List.mem_cons_self, state.fresh node List.mem_cons_self, distinct.1⟩
  have nodeLinks : ∀ target, g.Links node target →
      g.Settled unvisited (⟨node, []⟩ :: path) target := fun target link => by
    simpa using state.accounted.1 target link
  have either : ∀ id, g.Settled unvisited path id →
      id = node ∨ g.Settled unvisited (⟨node, []⟩ :: path) id := fun id settled => by
    by_cases same : id = node
    · exact .inl same
    · exact .inr ⟨settled.1, settled.2.1, fun onPath =>
        (List.mem_cons.mp onPath).elim same settled.2.2⟩
  refine ⟨state.nodup, distinct.2, fun id onPath => state.fresh id (List.mem_cons_of_mem _ onPath),
    fun id onPath => state.inside id (List.mem_cons_of_mem _ onPath),
    fun frame onPath => state.pending frame (List.mem_cons_of_mem _ onPath),
    state.linked.tail, state.accounted.2.settle kept nodeSettled, ?_, ?_⟩
  · intro id target settled link
    rcases either id settled with rfl | before
    · exact kept target (nodeLinks target link)
    · exact kept target (state.closed id target before link)
  · intro id settled cycle
    rcases either id settled with rfl | before
    · -- The node itself: its successors were settled before it, and it cannot be reached back.
      obtain ⟨target, link, back⟩ := TransGen.head'_iff.mp cycle
      have returned := state.settled_of_reaches (nodeLinks target link) back
      exact returned.2.2 List.mem_cons_self
    · exact state.acyclic id before cycle

/-- A link to a node that is settled, or was explored from the same frame, needs no search. -/
theorem skip (state : g.SearchState unvisited (⟨node, child :: pending⟩ :: path))
    (settled : g.Settled unvisited (⟨node, child :: pending⟩ :: path) child) :
    g.SearchState unvisited (⟨node, pending⟩ :: path) where
  nodup := state.nodup
  distinct := state.distinct
  fresh := state.fresh
  inside := state.inside
  pending := by
    intro frame onPath target isPending
    rcases List.mem_cons.mp onPath with rfl | outer
    · exact state.pending _ List.mem_cons_self target (List.mem_cons_of_mem child isPending)
    · exact state.pending frame (List.mem_cons_of_mem _ outer) target isPending
  linked := by
    cases path with
    | nil => exact List.isChain_singleton _
    | cons outer path =>
        exact List.isChain_cons_cons.mpr (List.isChain_cons_cons.mp state.linked)
  accounted := by
    refine ⟨fun target link => ?_, state.accounted.2⟩
    rcases state.accounted.1 target link with isPending | others
    · rcases List.mem_cons.mp isPending with rfl | later
      · exact .inr (.inl settled)
      · exact .inl later
    · exact .inr others
  closed := state.closed
  acyclic := state.acyclic

/-- An unvisited node goes from the unvisited ones onto the path. -/
theorem settled_descend (found : child ∈ unvisited) (nodup : unvisited.Nodup) (id : NodeId) :
    g.Settled (unvisited.erase child) (g.enter child :: ⟨node, pending⟩ :: path) id ↔
      g.Settled unvisited (⟨node, child :: pending⟩ :: path) id := by
  simp only [Settled, trail_cons, enter, List.mem_cons, nodup.mem_erase_iff, not_or, not_and]
  constructor
  · rintro ⟨inside, notLeft, notChild, notNode, notOuter⟩
    exact ⟨inside, notLeft notChild, notNode, notOuter⟩
  · rintro ⟨inside, notUnvisited, notNode, notOuter⟩
    exact ⟨inside, fun _ => notUnvisited, fun same => notUnvisited (same ▸ found), notNode,
      notOuter⟩

theorem descend (state : g.SearchState unvisited (⟨node, child :: pending⟩ :: path))
    (closed : g.Closed) (found : child ∈ unvisited) :
    g.SearchState (unvisited.erase child) (g.enter child :: ⟨node, pending⟩ :: path) := by
  have same : ∀ id,
      g.Settled (unvisited.erase child) (g.enter child :: ⟨node, pending⟩ :: path) id ↔
        g.Settled unvisited (⟨node, child :: pending⟩ :: path) id :=
    settled_descend found state.nodup
  have link : g.Links node child := state.pending _ List.mem_cons_self child List.mem_cons_self
  have notOnPath : child ∉ trail (⟨node, child :: pending⟩ :: path) :=
    fun onPath => state.fresh child onPath found
  refine ⟨state.nodup.erase child, ?_, ?_, ?_, ?_, ?_, ?_, ?_, ?_⟩
  · exact List.nodup_cons.mpr ⟨notOnPath, state.distinct⟩
  · intro id onPath isLeft
    have wasUnvisited := List.mem_of_mem_erase isLeft
    rcases List.mem_cons.mp onPath with rfl | before
    · exact state.nodup.not_mem_erase isLeft
    · exact state.fresh id before wasUnvisited
  · intro id onPath
    rcases List.mem_cons.mp onPath with rfl | before
    · exact closed node _ link
    · exact state.inside id before
  · intro frame onPath target isPending
    rcases List.mem_cons.mp onPath with rfl | before
    · exact List.mem_reverse.mp isPending
    rcases List.mem_cons.mp before with rfl | outer
    · exact state.pending _ List.mem_cons_self target (List.mem_cons_of_mem child isPending)
    · exact state.pending frame (List.mem_cons_of_mem _ outer) target isPending
  · refine List.isChain_cons_cons.mpr ⟨link, ?_⟩
    cases path with
    | nil => exact List.isChain_singleton _
    | cons outer path =>
        exact List.isChain_cons_cons.mpr (List.isChain_cons_cons.mp state.linked)
  · refine ⟨fun target leads => .inl (List.mem_reverse.mpr leads), fun target leads => ?_,
      state.accounted.2.mono fun id => (same id).mpr⟩
    rcases state.accounted.1 target leads with isPending | settled | isInner
    · rcases List.mem_cons.mp isPending with rfl | later
      · exact .inr (.inr rfl)
      · exact .inl later
    · exact .inr (.inl ((same target).mpr settled))
    · cases isInner
  · exact fun id target settled leads =>
      (same target).mpr (state.closed id target ((same id).mp settled) leads)
  · exact fun id settled => state.acyclic id ((same id).mp settled)

theorem reaches_innermost {frame : Frame} (state : g.SearchState unvisited (frame :: path))
    {id : NodeId} (onPath : id ∈ trail (frame :: path)) :
    ReflTransGen g.Links id frame.node := by
  have linked := state.linked
  clear state
  induction path generalizing frame with
  | nil =>
      obtain rfl : id = frame.node := by simpa using onPath
      exact .refl
  | cons outer path inductionHypothesis =>
      obtain ⟨link, rest⟩ := List.isChain_cons_cons.mp linked
      rcases List.mem_cons.mp onPath with rfl | before
      · exact .refl
      · exact (inductionHypothesis before rest).tail link

/-- A pending link to a node of the path closes a cycle. -/
theorem cycle (state : g.SearchState unvisited (⟨node, child :: pending⟩ :: path))
    (onPath : child ∈ trail (⟨node, child :: pending⟩ :: path)) : TransGen g.Links child child :=
  TransGen.tail' (state.reaches_innermost onPath)
    (state.pending _ List.mem_cons_self child List.mem_cons_self)

/-- A link leads to a node on the path, to an unvisited one, or to a settled one. -/
theorem settled_of_not_unvisited
    (state : g.SearchState unvisited (⟨node, child :: pending⟩ :: path)) (closed : g.Closed)
    (notOnPath : ¬ (child = node ∨ child ∈ path.map Frame.node)) (visited : child ∉ unvisited) :
    g.Settled unvisited (⟨node, child :: pending⟩ :: path) child := by
  have link := state.pending _ List.mem_cons_self child List.mem_cons_self
  exact ⟨closed node child link, visited, fun onPath => notOnPath (List.mem_cons.mp onPath)⟩

theorem start (state : g.SearchState unvisited []) {id : NodeId} (inside : id < g.size)
    (found : id ∈ unvisited) : g.SearchState (unvisited.erase id) [g.enter id] := by
  have same : ∀ other, g.Settled (unvisited.erase id) [g.enter id] other ↔
      g.Settled unvisited [] other := fun other => by
    simp only [Settled, trail_cons, trail_nil, enter, List.mem_singleton,
      state.nodup.mem_erase_iff, List.not_mem_nil, not_false_eq_true, and_true, not_and]
    constructor
    · rintro ⟨otherInside, notLeft, notStart⟩
      exact ⟨otherInside, notLeft notStart⟩
    · rintro ⟨otherInside, notUnvisited⟩
      exact ⟨otherInside, fun _ => notUnvisited, fun isStart => notUnvisited (isStart ▸ found)⟩
  refine ⟨state.nodup.erase id, List.nodup_singleton _, ?_, ?_, ?_, List.isChain_singleton _, ?_,
    ?_, ?_⟩
  · intro other onPath
    obtain rfl : other = id := by simpa [trail, enter] using onPath
    exact state.nodup.not_mem_erase
  · intro other onPath
    obtain rfl : other = id := by simpa [trail, enter] using onPath
    exact inside
  · intro frame onPath target isPending
    obtain rfl := List.mem_singleton.mp onPath
    exact List.mem_reverse.mp isPending
  · exact ⟨fun target leads => .inl (List.mem_reverse.mpr leads), trivial⟩
  · exact fun other target settled leads =>
      (same target).mpr (state.closed other target ((same other).mp settled) leads)
  · exact fun other settled => state.acyclic other ((same other).mp settled)

end SearchState

/-- A search from a good state ends in one without a path, or names a node on a cycle. -/
theorem explore_spec {g : Graph} (closed : g.Closed) {unvisited : List NodeId} {path : List Frame}
    (state : g.SearchState unvisited path) :
    match g.explore unvisited path with
    | .ok left => g.SearchState left [] ∧ left ⊆ unvisited
    | .error closing => TransGen g.Links closing closing := by
  fun_induction explore g unvisited path with
  | case1 unvisited => exact ⟨state, fun _ left => left⟩
  | case2 unvisited node path inductionHypothesis => exact inductionHypothesis state.leave
  | case3 unvisited node child pending path onPath =>
      exact state.cycle (List.mem_cons.mpr onPath)
  | case4 unvisited node child pending path notOnPath found inductionHypothesis =>
      have after := inductionHypothesis (state.descend closed found)
      split at after
      · exact ⟨after.1, fun id left => List.mem_of_mem_erase (after.2 left)⟩
      · exact after
  | case5 unvisited node child pending path notOnPath visited inductionHypothesis =>
      exact inductionHypothesis
        (state.skip (state.settled_of_not_unvisited closed notOnPath visited))

/-- Searches from all nodes end well only without cycles, and name a node on one otherwise. -/
theorem exploreAll_spec {g : Graph} (closed : g.Closed) {unvisited starts : List NodeId}
    (state : g.SearchState unvisited []) (inside : ∀ id ∈ starts, id < g.size)
    (covered : unvisited ⊆ starts) :
    match g.exploreAll unvisited starts with
    | .ok () => g.Acyclic
    | .error closing => TransGen g.Links closing closing := by
  induction starts generalizing unvisited with
  | nil =>
      intro id cycle
      obtain ⟨target, link, _⟩ := TransGen.head'_iff.mp cycle
      have settled : g.Settled unvisited [] id :=
        ⟨link.source_lt_size, fun left => List.not_mem_nil (covered left), List.not_mem_nil⟩
      exact state.acyclic id settled cycle
  | cons start starts inductionHypothesis =>
      have insideRest : ∀ id ∈ starts, id < g.size :=
        fun id later => inside id (List.mem_cons_of_mem start later)
      unfold exploreAll
      by_cases found : start ∈ unvisited
      · simp only [found, if_true]
        have searched := explore_spec closed
          (state.start (inside start List.mem_cons_self) found)
        cases result : g.explore (unvisited.erase start) [g.enter start] with
        | error closing => simpa [result] using searched
        | ok left =>
            simp only [result] at searched
            apply inductionHypothesis searched.1 insideRest
            intro id isLeft
            have remaining := searched.2 isLeft
            rcases List.mem_cons.mp (covered (List.mem_of_mem_erase remaining)) with rfl | later
            · exact absurd remaining state.nodup.not_mem_erase
            · exact later
      · simp only [found, if_false]
        apply inductionHypothesis state insideRest
        intro id isLeft
        rcases List.mem_cons.mp (covered isLeft) with rfl | later
        · exact absurd isLeft found
        · exact later

theorem searchState_ids (g : Graph) : g.SearchState g.ids [] := by
  have nothing : ∀ id, ¬ g.Settled g.ids [] id :=
    fun id settled => settled.2.1 (mem_ids.mpr settled.1)
  exact ⟨List.nodup_range, List.nodup_nil, by simp, by simp, by simp, .nil, trivial,
    fun id _ settled => absurd settled (nothing id), fun id settled => absurd settled (nothing id)⟩

theorem checkAcyclic_eq_ok_iff {g : Graph} (closed : g.Closed) :
    g.checkAcyclic = .ok () ↔ g.Acyclic := by
  have searched := exploreAll_spec closed g.searchState_ids (fun _ found => mem_ids.mp found)
    (List.Subset.refl _)
  unfold checkAcyclic
  cases result : g.exploreAll g.ids g.ids with
  | ok => simpa [result] using searched
  | error closing =>
      have cycle : TransGen g.Links closing closing := by simpa [result] using searched
      simp only [reduceCtorEq, false_iff]
      exact fun acyclic => acyclic closing cycle

end BlockVerilog.Graph
