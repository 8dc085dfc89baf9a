import BlockVerilog.Proofs.Graph.CommentWidth
import BlockVerilog.Proofs.Graph.Rewired
import BlockVerilog.Proofs.Related

/-!
The harvest of comments as a recursive walk.

The walk takes a node before what hangs in it, and what hangs in it in slot order. It exists because
value links form no cycle, and it is the same as the loop with a stack that keeps no record of the
nodes it met.
-/

namespace BlockVerilog.Graph

open Relation Loop

variable {g : Graph}

/-- The nodes of a recursive walk along value links: a node, then the walks from what hangs in it,
in slot order. -/
inductive Preorder (g : Graph) : NodeId → List NodeId → Prop
  | node {id : NodeId} {below : List (List NodeId)}
      (walks : List.Forall₂ (Preorder g) (g.valueTargets id) below) :
      Preorder g id (id :: below.flatten)

theorem preorder_iff {id : NodeId} {walk : List NodeId} :
    g.Preorder id walk ↔
      ∃ below, List.Forall₂ g.Preorder (g.valueTargets id) below ∧ walk = id :: below.flatten := by
  constructor
  · rintro ⟨walks⟩
    exact ⟨_, walks, rfl⟩
  · rintro ⟨below, walks, rfl⟩
    exact .node walks

/-- A node has exactly one recursive walk, namely one that goes far enough. -/
theorem preorder_iff_eq_valueTree (closed : g.Closed) (acyclic : g.Acyclic) {depth : Nat}
    {id : NodeId} (enough : g.Suffices (depth, id)) {walk : List NodeId} :
    g.Preorder id walk ↔ walk = g.valueTree depth id := by
  induction depth generalizing id walk with
  | zero => exact absurd enough.pos (Nat.lt_irrefl 0)
  | succ depth inductionHypothesis =>
      have below : ∀ child ∈ g.valueTargets id, ∀ walk,
          g.Preorder child walk ↔ walk = g.valueTree depth child := by
        intro child hangs walk
        have link := (mem_valueTargets.mp hangs).links
        exact inductionHypothesis (enough.of_links closed acyclic link)
      simp only [preorder_iff, forall₂_iff_eq_map below, exists_eq_left, valueTree, List.flatMap]

/-- One turn of the loop that gathers comments: the last node of the stack makes way for what hangs
in it, in reverse, and its comment is put behind the others. -/
def gather (g : Graph) (state : List NodeId × List String) : Option (List NodeId × List String) :=
  state.1.getLast?.map fun id =>
    (state.1.dropLast ++ (g.valueTargets id).reverse, state.2 ++ (g.comment? id).toList)

theorem gather_nil (comments : List String) : g.gather ([], comments) = none := rfl

theorem gather_reverse_cons (id : NodeId) (stack : List NodeId) (comments : List String) :
    g.gather ((id :: stack).reverse, comments) =
      some ((g.valueTargets id ++ stack).reverse, comments ++ (g.comment? id).toList) := by
  simp [gather]

/-- A stack that grows at its end is one that grows at its front the other way round. -/
theorem visits_gather {stack : List NodeId} {trace : List (List NodeId)}
    (visits : Visits g.unstack stack trace) (comments : List String) :
    ∃ states, Visits g.gather (stack.reverse, comments) states ∧
      states.getLast? =
        some ([], comments ++ (trace.filterMap List.head?).filterMap g.comment?) := by
  induction visits generalizing comments with
  | @last stack stops =>
      cases stack with
      | nil => exact ⟨_, .last (gather_nil comments), by simp⟩
      | cons id stack => simp [unstack] at stops
  | @next stack following rest goes _ inductionHypothesis =>
      cases stack with
      | nil => simp [unstack] at goes
      | cons id stack =>
          obtain rfl := Option.some.inj goes
          obtain ⟨states, visits, ends⟩ :=
            inductionHypothesis (comments ++ (g.comment? id).toList)
          refine ⟨_, .next (gather_reverse_cons id stack comments) visits, ?_⟩
          rw [List.getLast?_cons, ends]
          cases found : g.comment? id <;> simp [found]

/-- What hangs in a value slot of a node. -/
def valueTarget? (g : Graph) (id : NodeId) (slot : String) : Option NodeId :=
  (g.get? id).bind fun node => node.values.target? slot

/-- Where the value slots of a path lead to, one after the other. -/
def follow (g : Graph) : NodeId → List String → Option NodeId
  | id, [] => some id
  | id, slot :: path => (g.valueTarget? id slot).bind fun child => g.follow child path

/-- The value slots of a node. -/
def valueSlots (g : Graph) (id : NodeId) : List String :=
  ((g.get? id).map fun node => node.values.keys).getD []

/-- The paths along at most `depth` value slots: the empty one first, then those through each
slot. -/
def valuePaths (g : Graph) : (depth : Nat) → NodeId → List (List String)
  | 0, _ => [[]]
  | depth + 1, id =>
      [] :: (g.valueSlots id).flatMap fun slot =>
        (g.valueTarget? id slot).toList.flatMap fun child =>
          (g.valuePaths depth child).map (slot :: ·)

theorem valueTargets_eq_flatMap (id : NodeId) :
    g.valueTargets id = (g.valueSlots id).flatMap fun slot => (g.valueTarget? id slot).toList := by
  unfold valueTargets valueSlots valueTarget?
  cases g.get? id with
  | none => rfl
  | some node => exact Slots.targets_eq_flatMap node.values

theorem nodup_valueSlots (id : NodeId) : (g.valueSlots id).Nodup := by
  unfold valueSlots
  cases g.get? id with
  | none => exact List.nodup_nil
  | some node => exact node.values.nodup_keys

theorem mem_valueSlots_of_valueTarget? {id child : NodeId} {slot : String}
    (hangs : g.valueTarget? id slot = some child) : slot ∈ g.valueSlots id := by
  obtain ⟨node, found, holds⟩ := Option.bind_eq_some_iff.mp hangs
  rw [valueSlots, found]
  exact OrderedMap.mem_keys_iff.mpr ⟨_, Option.join_eq_some_iff.mp holds⟩

theorem linksValue_of_valueTarget? {id child : NodeId} {slot : String}
    (hangs : g.valueTarget? id slot = some child) : g.LinksValue id child := by
  obtain ⟨node, found, holds⟩ := Option.bind_eq_some_iff.mp hangs
  exact ⟨node, found, Slots.mem_targets_of_target? holds⟩

/-- Each node of a walk stands at the end of its path. -/
theorem map_follow_valuePaths (depth : Nat) (id : NodeId) :
    (g.valuePaths depth id).map (g.follow id) = (g.valueTree depth id).map some := by
  induction depth generalizing id with
  | zero => rfl
  | succ depth inductionHypothesis =>
      rw [valuePaths, valueTree, valueTargets_eq_flatMap, List.map_cons, List.map_cons,
        List.flatMap_assoc, List.map_flatMap, List.map_flatMap]
      refine congrArg₂ _ rfl (List.flatMap_congr fun slot _ => ?_)
      cases hangs : g.valueTarget? id slot with
      | none => rfl
      | some child =>
          simp only [Option.toList_some, List.flatMap_singleton, List.map_map,
            ← inductionHypothesis child]
          refine List.map_congr_left fun path _ => ?_
          simp only [Function.comp_apply, follow, hangs, Option.bind_some]

theorem cons_mem_valuePaths_iff {depth : Nat} {id : NodeId} {slot : String} {path : List String} :
    slot :: path ∈ g.valuePaths (depth + 1) id ↔
      ∃ child, g.valueTarget? id slot = some child ∧ path ∈ g.valuePaths depth child := by
  simp only [valuePaths, List.mem_cons, List.cons_ne_nil, false_or, List.mem_flatMap,
    Option.mem_toList, List.mem_map, List.cons.injEq]
  constructor
  · rintro ⟨_, _, child, hangs, _, listed, rfl, rfl⟩
    exact ⟨child, hangs, listed⟩
  · rintro ⟨child, hangs, listed⟩
    exact ⟨slot, mem_valueSlots_of_valueTarget? hangs, child, hangs, path, listed, rfl, rfl⟩

/-- The paths that go far enough are all that lead somewhere. -/
theorem mem_valuePaths_iff (closed : g.Closed) (acyclic : g.Acyclic) {depth : Nat} {id : NodeId}
    (enough : g.Suffices (depth, id)) {path : List String} :
    path ∈ g.valuePaths depth id ↔ (g.follow id path).isSome = true := by
  induction depth generalizing id path with
  | zero => exact absurd enough.pos (Nat.lt_irrefl 0)
  | succ depth inductionHypothesis =>
      cases path with
      | nil => exact iff_of_true List.mem_cons_self rfl
      | cons slot path =>
          rw [cons_mem_valuePaths_iff, follow]
          cases hangs : g.valueTarget? id slot with
          | none => simp
          | some child =>
              have link := (linksValue_of_valueTarget? hangs).links
              simpa using inductionHypothesis (enough.of_links closed acyclic link)

/-- No path is listed twice: those through different slots differ in their first one. -/
theorem nodup_valuePaths (depth : Nat) (id : NodeId) : (g.valuePaths depth id).Nodup := by
  induction depth generalizing id with
  | zero => exact List.nodup_singleton []
  | succ depth inductionHypothesis =>
      rw [valuePaths, List.nodup_cons, List.nodup_flatMap]
      refine ⟨by simp, fun slot _ => ?_, (nodup_valueSlots id).imp fun different => ?_⟩
      · cases g.valueTarget? id slot with
        | none => exact List.nodup_nil
        | some child => simpa using (inductionHypothesis child).map List.cons_injective
      · rw [Function.onFun, List.disjoint_left]
        intro path throughFirst throughSecond
        simp only [List.mem_flatMap, List.mem_map] at throughFirst throughSecond
        obtain ⟨_, _, _, _, rfl⟩ := throughFirst
        obtain ⟨_, _, _, _, same⟩ := throughSecond
        exact different (List.cons.inj same).1.symm

/-- What the harvest of comments below a node has to do with the recursive walk from there. -/
structure Harvests (g : Graph) (id : NodeId) (walk : List NodeId) : Prop where
  /-- It is the one recursive walk. -/
  walks : ∀ other, g.Preorder id other ↔ other = walk
  /-- It meets a node once for each path to it. -/
  paths : ∃ paths : List (List String), paths.Nodup ∧
    (∀ path, path ∈ paths ↔ (g.follow id path).isSome = true) ∧
    paths.map (g.follow id) = walk.map some
  /-- The loop ends with the comments that it meets. -/
  loop : ∃ states, Visits g.gather ([id], []) states ∧
    states.getLast? = some ([], walk.filterMap g.comment?)
  empty : g.nestedComments id = [] ↔
    ∀ target, ReflTransGen g.LinksValue id target → g.comment? target = none
  text : g.nestedComments id =
    (walk.filterMap g.comment?).flatMap fun comment => comment.toList ++ ['\n']

theorem layNotes_eq_flatMap (notes : List String) :
    layNotes notes = notes.flatMap fun comment => comment.toList ++ ['\n'] := by
  cases notes with
  | nil => rfl
  | cons note notes =>
      rw [layNotes, Text.unlines_newline (by simp), List.flatMap_map]
      exact List.cons_ne_nil note notes

/-- In an accepted graph the comments below a node are those of the recursive walk. -/
theorem nestedComments_preorder {roots : List NodeId} (accepted : g.validate roots = .ok ())
    {id : NodeId} (inside : id < g.size) : ∃ walk, g.Harvests id walk := by
  have formed := validate_eq_ok_iff.mp accepted
  have enough : g.Suffices (g.size, id) := ⟨inside, extent_le_size id⟩
  have text : g.nestedComments id = ((g.valueTree g.size id).filterMap g.comment?).flatMap
      fun comment => comment.toList ++ ['\n'] := by
    rw [nestedComments_eq, layNotes_eq_flatMap, notes]
  refine ⟨g.valueTree g.size id, ?_, ?_, ?_, ?_, text⟩
  · intro other
    exact preorder_iff_eq_valueTree formed.closed formed.acyclic enough
  · refine ⟨g.valuePaths g.size id, nodup_valuePaths g.size id, fun path => ?_,
      map_follow_valuePaths g.size id⟩
    exact mem_valuePaths_iff formed.closed formed.acyclic enough
  · obtain ⟨trace, visits, heads, _⟩ :=
      visits_unstack_singleton formed.closed formed.acyclic inside
    have gathered := visits_gather visits []
    rw [heads, harvest_eq_flatMap, List.flatMap_singleton] at gathered
    exact gathered
  · have bare : ∀ comment : String, comment.toList ++ ['\n'] ≠ [] := by simp
    simp only [text, List.flatMap_eq_nil_iff, bare, imp_false]
    rw [← List.eq_nil_iff_forall_not_mem, List.filterMap_eq_nil_iff]
    refine forall_congr' fun target => ?_
    rw [mem_valueTree_iff formed.closed formed.acyclic enough]

/-- An assignment of a bit to the sum of another bit with itself. -/
def doubledBit : Graph where
  nodes := #[
    { Node.blank "assign_block" .statement with
      fields := .ofList [("var", .text "y")]
      values := .ofList [("NAME", some 1)] },
    { Node.blank "plus" .expression with
      comment := "twice"
      values := .ofList [("A", some 2), ("B", some 2)] },
    { Node.blank "one" .expression with comment := "the bit" }]
  vars := []

theorem doubledBit_preorder :
    (doubledBit.validate [0] = .ok () ∧ 1 < doubledBit.size) ∧
      (∃ walk, doubledBit.Harvests 1 walk) ∧
      doubledBit.nestedComments 1 = "twice\nthe bit\nthe bit\n".toList := by
  have accepted : doubledBit.validate [0] = .ok () := by cbv
  have inside : 1 < doubledBit.size := by decide
  exact ⟨⟨accepted, inside⟩, nestedComments_preorder accepted inside, by cbv⟩

end BlockVerilog.Graph
