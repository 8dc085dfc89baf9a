import BlockVerilog.Proofs.Graph.WellFormed

/-!
Validation on vectors that are indexed by node.

Here a node is referenced if a vector of flags says so, and a search keeps the colour of each node
in a vector of marks. A look-up out of range makes the whole check `none`. `validateMarked_eq` says
that none is: the checks that come first leave only indices inside.
-/

namespace BlockVerilog.Graph

/-- The colour of a node in a search. -/
inductive Mark where
  | unvisited
  | onPath
  | done
  deriving DecidableEq, Repr

theorem count_set_done_le {marks : Array Mark} {id : NodeId} (inside : id < marks.size) :
    (marks.set id .done).count .unvisited ≤ marks.count .unvisited := by
  rw [Array.count_set inside]
  simp

theorem count_set_onPath_lt {marks : Array Mark} {id : NodeId} (inside : id < marks.size)
    (mark : marks[id] = .unvisited) :
    (marks.set id .onPath).count .unvisited < marks.count .unvisited := by
  have some : 0 < marks.count .unvisited :=
    Array.count_pos_iff.mpr (mark ▸ Array.getElem_mem inside)
  rw [Array.count_set inside]
  simp only [mark, beq_self_eq_true, if_true, reduceCtorEq, beq_iff_eq, if_false]
  omega

/-- The search along a path, with the colours in a vector. -/
def exploreMarked (g : Graph) (marks : Array Mark) :
    List Frame → Option (Except NodeId (Array Mark))
  | [] => some (.ok marks)
  | ⟨node, []⟩ :: path =>
      if inside : node < marks.size then exploreMarked g (marks.set node .done) path else none
  | ⟨node, child :: pending⟩ :: path =>
      if inside : child < marks.size then
        match _mark : marks[child] with
        | .onPath => some (.error child)
        | .done => exploreMarked g marks (⟨node, pending⟩ :: path)
        | .unvisited =>
            if child < g.size then
              exploreMarked g (marks.set child .onPath) (g.enter child :: ⟨node, pending⟩ :: path)
            else none
      else none
termination_by path => (marks.count .unvisited, pathWork path)
decreasing_by
  · exact Prod.Lex.right' _ (count_set_done_le inside) (by simp [pathWork])
  · exact Prod.Lex.right _ (by simp [pathWork])
  · exact Prod.Lex.left _ _ (count_set_onPath_lt inside _mark)

section

variable {g : Graph} {marks : Array Mark} {node child : NodeId} {pending : List NodeId}
  {path : List Frame} (inside : child < marks.size)
include inside

theorem exploreMarked_of_onPath (mark : marks[child] = .onPath) :
    g.exploreMarked marks (⟨node, child :: pending⟩ :: path) = some (.error child) := by
  rw [exploreMarked, dif_pos inside]
  split <;> simp_all

theorem exploreMarked_of_done (mark : marks[child] = .done) :
    g.exploreMarked marks (⟨node, child :: pending⟩ :: path) =
      g.exploreMarked marks (⟨node, pending⟩ :: path) := by
  rw [exploreMarked, dif_pos inside]
  split <;> simp_all

theorem exploreMarked_of_unvisited (mark : marks[child] = .unvisited)
    (insideGraph : child < g.size) :
    g.exploreMarked marks (⟨node, child :: pending⟩ :: path) =
      g.exploreMarked (marks.set child .onPath) (g.enter child :: ⟨node, pending⟩ :: path) := by
  rw [exploreMarked, dif_pos inside]
  split <;> simp_all

end

/-- A search from each of these nodes that is still unvisited. -/
def exploreAllMarked (g : Graph) (marks : Array Mark) : List NodeId → Option (Except NodeId Unit)
  | [] => some (.ok ())
  | start :: starts =>
      if inside : start < marks.size then
        if marks[start] = .unvisited then
          if start < g.size then
            match g.exploreMarked (marks.set start .onPath) [g.enter start] with
            | none => none
            | some (.error closing) => some (.error closing)
            | some (.ok marks) => exploreAllMarked g marks starts
          else none
        else exploreAllMarked g marks starts
      else none

/-- The search for cycles, from marks that are all unvisited. -/
def checkAcyclicMarked (g : Graph) : Option (Except Defect Unit) :=
  match g.exploreAllMarked (Array.replicate g.size .unvisited) g.ids with
  | none => none
  | some (.error closing) => some (.error (.cycle (g.keyOf closing)))
  | some (.ok ()) => some (.ok ())

/-- Set the flags of nodes. -/
def flag (flags : Array Bool) : List NodeId → Option (Array Bool)
  | [] => some flags
  | target :: targets =>
      if inside : target < flags.size then flag (flags.set target true) targets else none

/-- The flags of the nodes that some node links to. -/
def referenced? (g : Graph) : Option (Array Bool) :=
  flag (Array.replicate g.size false) g.targets

/-- A root is inside, and its flag is not set. -/
def checkRootMarked (g : Graph) (flags : Array Bool) (root : NodeId) :
    Option (Except Defect Unit) :=
  if g.contains root then
    if inside : root < flags.size then
      if flags[root] then some (.error (.rootReferenced (g.keyOf root))) else some (.ok ())
    else none
  else some (.error (.unknownRoot root))

def checkRootsMarked (g : Graph) (flags : Array Bool) : List NodeId → Option (Except Defect Unit)
  | [] => some (.ok ())
  | root :: roots =>
      match g.checkRootMarked flags root with
      | some (.ok ()) => checkRootsMarked g flags roots
      | failed => failed

/-- Validation with vectors. -/
def validateMarked (g : Graph) (roots : List NodeId) : Option (Except Defect Unit) :=
  match g.checkLinks with
  | .error defect => some (.error defect)
  | .ok () =>
      match g.referenced? with
      | none => none
      | some flags =>
          match g.checkRootsMarked flags roots with
          | some (.ok ()) => g.checkAcyclicMarked
          | failed => failed

/-- Marks that say what a search knows. -/
structure Colours (g : Graph) (marks : Array Mark) (unvisited : List NodeId)
    (path : List Frame) : Prop where
  size : marks.size = g.size
  unvisited : ∀ id (inside : id < marks.size), marks[id] = .unvisited ↔ id ∈ unvisited
  onPath : ∀ id (inside : id < marks.size), marks[id] = .onPath ↔ id ∈ trail path

namespace Colours

variable {g : Graph} {marks : Array Mark} {unvisited : List NodeId} {path : List Frame}

theorem leave {node : NodeId} (colours : g.Colours marks unvisited (⟨node, []⟩ :: path))
    (state : g.SearchState unvisited (⟨node, []⟩ :: path)) (inside : node < marks.size) :
    g.Colours (marks.set node .done) unvisited path where
  size := by rw [Array.size_set, colours.size]
  unvisited := by
    intro id inBounds
    rw [Array.size_set] at inBounds
    rw [Array.getElem_set]
    by_cases same : node = id
    · subst same
      simp [state.fresh node List.mem_cons_self]
    · simpa [same] using colours.unvisited id inBounds
  onPath := by
    intro id inBounds
    rw [Array.size_set] at inBounds
    rw [Array.getElem_set]
    by_cases same : node = id
    · subst same
      have offPath : node ∉ trail path := (List.nodup_cons.mp state.distinct).1
      simp [offPath]
    · have other : ¬ id = node := fun h => same h.symm
      simpa [same, other] using colours.onPath id inBounds

theorem extend {id : NodeId} {pending : List NodeId} (colours : g.Colours marks unvisited path)
    (nodup : unvisited.Nodup) (inside : id < marks.size) :
    g.Colours (marks.set id .onPath) (unvisited.erase id) (⟨id, pending⟩ :: path) where
  size := by rw [Array.size_set, colours.size]
  unvisited := by
    intro other inBounds
    rw [Array.size_set] at inBounds
    rw [Array.getElem_set, nodup.mem_erase_iff]
    by_cases same : id = other
    · simp [same]
    · have different : other ≠ id := fun h => same h.symm
      simpa [same, different] using colours.unvisited other inBounds
  onPath := by
    intro other inBounds
    rw [Array.size_set] at inBounds
    rw [Array.getElem_set]
    by_cases same : id = other
    · simp [same]
    · have different : ¬ other = id := fun h => same h.symm
      simpa [same, different] using colours.onPath other inBounds

end Colours

/-- A search finds every mark it looks up, and the same as the search without marks. -/
theorem exploreMarked_spec {g : Graph} (closed : g.Closed) {unvisited : List NodeId}
    {path : List Frame} (state : g.SearchState unvisited path) {marks : Array Mark}
    (colours : g.Colours marks unvisited path) :
    match g.explore unvisited path with
    | .ok left => ∃ after, g.exploreMarked marks path = some (.ok after) ∧ g.Colours after left []
    | .error closing => g.exploreMarked marks path = some (.error closing) := by
  fun_induction explore g unvisited path generalizing marks with
  | case1 unvisited => exact ⟨marks, by rw [exploreMarked], colours⟩
  | case2 unvisited node path inductionHypothesis =>
      have inside : node < marks.size := colours.size ▸ state.inside node List.mem_cons_self
      rw [exploreMarked, dif_pos inside]
      exact inductionHypothesis state.leave (colours.leave state inside)
  | case3 unvisited node child pending path onPath =>
      have link := state.pending _ List.mem_cons_self child List.mem_cons_self
      have inside : child < marks.size := colours.size ▸ closed node child link
      have mark : marks[child] = .onPath :=
        (colours.onPath child inside).mpr (List.mem_cons.mpr onPath)
      exact exploreMarked_of_onPath inside mark
  | case4 unvisited node child pending path notOnPath found inductionHypothesis =>
      have link := state.pending _ List.mem_cons_self child List.mem_cons_self
      have insideGraph := closed node child link
      have inside : child < marks.size := colours.size ▸ insideGraph
      have mark : marks[child] = .unvisited := (colours.unvisited child inside).mpr found
      have outer : g.Colours marks unvisited (⟨node, pending⟩ :: path) :=
        ⟨colours.size, colours.unvisited, colours.onPath⟩
      have pushed := inductionHypothesis (state.descend closed found)
        (outer.extend state.nodup inside)
      rw [exploreMarked_of_unvisited inside mark insideGraph]
      exact pushed
  | case5 unvisited node child pending path notOnPath visited inductionHypothesis =>
      have link := state.pending _ List.mem_cons_self child List.mem_cons_self
      have inside : child < marks.size := colours.size ▸ closed node child link
      have settled := state.settled_of_not_unvisited closed notOnPath visited
      have notUnvisited : marks[child] ≠ .unvisited :=
        fun mark => visited ((colours.unvisited child inside).mp mark)
      have offPath : marks[child] ≠ .onPath :=
        fun mark => settled.2.2 ((colours.onPath child inside).mp mark)
      have mark : marks[child] = .done := by
        cases isMark : marks[child] with
        | unvisited => exact absurd isMark notUnvisited
        | onPath => exact absurd isMark offPath
        | done => rfl
      rw [exploreMarked_of_done inside mark]
      exact inductionHypothesis (state.skip settled)
        ⟨colours.size, colours.unvisited, colours.onPath⟩

theorem exploreAllMarked_eq {g : Graph} (closed : g.Closed) {unvisited starts : List NodeId}
    (state : g.SearchState unvisited []) (starts_inside : ∀ id ∈ starts, id < g.size)
    {marks : Array Mark} (colours : g.Colours marks unvisited []) :
    g.exploreAllMarked marks starts = some (g.exploreAll unvisited starts) := by
  induction starts generalizing unvisited marks with
  | nil => rfl
  | cons start starts inductionHypothesis =>
      have insideGraph := starts_inside start List.mem_cons_self
      have insideRest : ∀ id ∈ starts, id < g.size :=
        fun id later => starts_inside id (List.mem_cons_of_mem start later)
      have inside : start < marks.size := colours.size ▸ insideGraph
      unfold exploreAllMarked exploreAll
      rw [dif_pos inside]
      by_cases found : start ∈ unvisited
      · have mark : marks[start] = .unvisited := (colours.unvisited start inside).mpr found
        have started := state.start insideGraph found
        have searched := exploreMarked_spec closed started
          (colours.extend state.nodup inside)
        have after := explore_spec closed started
        simp only [mark, found, insideGraph, if_true]
        cases result : g.explore (unvisited.erase start) [g.enter start] with
        | error closing =>
            simp only [result] at searched
            rw [searched]
        | ok left =>
            simp only [result] at searched after
            obtain ⟨marksAfter, marked, coloursAfter⟩ := searched
            rw [marked]
            exact inductionHypothesis after.1 insideRest coloursAfter
      · have mark : marks[start] ≠ .unvisited :=
          fun mark => found ((colours.unvisited start inside).mp mark)
        simp only [mark, found, if_false]
        exact inductionHypothesis state insideRest colours

theorem checkAcyclicMarked_eq {g : Graph} (closed : g.Closed) :
    g.checkAcyclicMarked = some g.checkAcyclic := by
  have colours : g.Colours (Array.replicate g.size .unvisited) g.ids [] :=
    ⟨by simp, fun id inside => by simpa using inside, fun id inside => by simp⟩
  unfold checkAcyclicMarked checkAcyclic
  rw [exploreAllMarked_eq closed g.searchState_ids (fun _ found => mem_ids.mp found) colours]
  cases g.exploreAll g.ids g.ids <;> rfl

/-- Flags inside are set for the targets and kept for all others. -/
theorem flag_spec {flags : Array Bool} {targets : List NodeId}
    (inside : ∀ target ∈ targets, target < flags.size) :
    ∃ after, flag flags targets = some after ∧ after.size = flags.size ∧
      ∀ id, after[id]? = some true ↔ flags[id]? = some true ∨ id ∈ targets := by
  induction targets generalizing flags with
  | nil => exact ⟨flags, rfl, rfl, by simp⟩
  | cons target targets inductionHypothesis =>
      have here := inside target List.mem_cons_self
      obtain ⟨after, flagged, size, holds⟩ :=
        @inductionHypothesis (flags.set target true) fun other later => by
          simpa using inside other (List.mem_cons_of_mem target later)
      refine ⟨after, by rw [flag, dif_pos here, flagged], by simpa using size, fun id => ?_⟩
      rw [holds, Array.getElem?_set here, List.mem_cons]
      by_cases same : target = id
      · simp [same]
      · have different : ¬ id = target := fun h => same h.symm
        simp [same, different]

theorem referenced?_spec {g : Graph} (closed : g.Closed) :
    ∃ flags, g.referenced? = some flags ∧ flags.size = g.size ∧
      ∀ id, flags[id]? = some true ↔ id ∈ g.targets := by
  obtain ⟨flags, flagged, size, holds⟩ :=
    @flag_spec (Array.replicate g.size false) g.targets fun target linked => by
      obtain ⟨source, link⟩ := mem_graphTargets_iff.mp linked
      simpa using closed source target link
  refine ⟨flags, flagged, by simpa using size, fun id => ?_⟩
  rw [holds, Array.getElem?_replicate]
  split <;> simp

theorem checkRootMarked_eq {g : Graph} {flags : Array Bool} (size : flags.size = g.size)
    (holds : ∀ id, flags[id]? = some true ↔ id ∈ g.targets) (root : NodeId) :
    g.checkRootMarked flags root = some (g.checkRoot root) := by
  unfold checkRootMarked checkRoot contains
  by_cases insideGraph : root < g.size
  · have inside : root < flags.size := size ▸ insideGraph
    have flagged : flags[root] = true ↔ root ∈ g.targets := by
      rw [← holds root, Array.getElem?_eq_getElem inside, Option.some.injEq]
    by_cases linked : root ∈ g.targets
    · simp [insideGraph, inside, flagged.mpr linked, linked, throw, throwThe,
        MonadExceptOf.throw]
    · have unset : ¬ flags[root] = true := fun set => linked (flagged.mp set)
      simp [insideGraph, inside, unset, linked, pure, Except.pure]
  · simp [insideGraph, throw, throwThe, MonadExceptOf.throw, bind, Except.bind]

theorem checkRootsMarked_eq {g : Graph} {flags : Array Bool} (size : flags.size = g.size)
    (holds : ∀ id, flags[id]? = some true ↔ id ∈ g.targets) (roots : List NodeId) :
    g.checkRootsMarked flags roots = some (roots.forM g.checkRoot) := by
  induction roots with
  | nil => rfl
  | cons root roots inductionHypothesis =>
      rw [checkRootsMarked, checkRootMarked_eq size holds root]
      simp only [List.forM_eq_forM, List.forM_cons] at inductionHypothesis ⊢
      cases g.checkRoot root with
      | error defect => rfl
      | ok => exact inductionHypothesis

/-- No look-up of a validation is out of range. -/
theorem validateMarked_eq (g : Graph) (roots : List NodeId) :
    g.validateMarked roots = some (g.validate roots) := by
  unfold validateMarked validate
  cases links : g.checkLinks with
  | error defect => rfl
  | ok =>
      have closed := closed_of_checkLinks links
      obtain ⟨flags, flagged, size, holds⟩ := referenced?_spec closed
      simp only [flagged, checkRootsMarked_eq size holds]
      cases rootsChecked : roots.forM g.checkRoot with
      | error defect => rfl
      | ok => exact checkAcyclicMarked_eq closed

/-- Validation decides well-formedness, and never looks outside the graph or its vectors. -/
theorem validate_decides_wellFormed (g : Graph) (roots : List NodeId) :
    (g.validate roots = .ok () ↔ g.WellFormed roots) ∧
      (¬ g.WellFormed roots → ∃ defect, g.validate roots = .error defect) ∧
      g.validateMarked roots = some (g.validate roots) := by
  refine ⟨validate_eq_ok_iff, fun malformed => ?_, validateMarked_eq g roots⟩
  cases result : g.validate roots with
  | error defect => exact ⟨defect, rfl⟩
  | ok => exact absurd (validate_eq_ok_iff.mp result) malformed

end BlockVerilog.Graph
