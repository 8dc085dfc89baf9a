import BlockVerilog.Proofs.Graph.Notes
import BlockVerilog.Proofs.Graph.Rewired
import BlockVerilog.Proofs.Graph.Running
import BlockVerilog.Proofs.Graph.Uncommented

/-!
Graphs without their disabled nodes.

A disabled statement can be linked past, and the slots of disabled expressions can be emptied. In
both graphs the same nodes run as before.
-/

namespace BlockVerilog.Graph

open Relation

variable {g : Graph} {roots : List NodeId}

section

variable (value statement : Option NodeId → Option NodeId)

theorem comment?_rewire (id : NodeId) :
    (g.rewire value statement).comment? id = g.comment? id := by
  rw [comment?, comment?, get?_rewire, Option.map_map]
  rfl

theorem valueTargets_rewire (id : NodeId) : (g.rewire value statement).valueTargets id =
    ((g.get? id).map fun node => Slots.targets (node.values.mapValues value)).getD [] := by
  rw [valueTargets, get?_rewire, Option.map_map]
  rfl

@[simp] theorem isEnabled_rewire : (g.rewire value statement).isEnabled = g.isEnabled := by
  funext id
  rw [isEnabled, isEnabled, get?_rewire]
  cases g.get? id <;> rfl

theorem following_rewire (empty : statement none = none) (id : NodeId) :
    (g.rewire value statement).following id = statement (g.following id) := by
  rw [following, following, get?_rewire]
  cases g.get? id with
  | none => exact empty.symm
  | some node => rfl

end

theorem isEnabled_of_isDisabled {id : NodeId} (off : g.isDisabled id = true) :
    g.isEnabled id = false := by
  unfold isDisabled at off
  unfold isEnabled
  revert off
  cases g.get? id <;> simp

/-! ### Statements that are linked past -/

/-- Where a link leads that leads past a statement. -/
def past (g : Graph) (skipped : NodeId) (link : Option NodeId) : Option NodeId :=
  if link = some skipped then g.following skipped else link

/-- Every link to a statement leads to the one that follows it; without one the slot stays, but
empty. -/
def unlinked (g : Graph) (skipped : NodeId) : Graph := g.rewire id (g.past skipped)

section

variable {skipped : NodeId}

@[simp] theorem past_none : g.past skipped none = none := rfl

theorem past_self : g.past skipped (some skipped) = g.following skipped := if_pos rfl

theorem past_of_ne {link : Option NodeId} (other : link ≠ some skipped) :
    g.past skipped link = link := if_neg other

theorem WellFormed.unlinked (formed : g.WellFormed roots) (skipped : NodeId) :
    (g.unlinked skipped).WellFormed roots := by
  refine formed.rewire rfl past_none (fun child target same => (Option.some.inj same).symm)
    fun source head target link goes => ?_
  have first : g.Links source head := links_iff_slots.mpr (.inr link)
  by_cases here : head = skipped
  · subst here
    rw [past_self, following_eq_some_iff] at goes
    exact ⟨.tail (.single first) goes.links, head, .inr goes⟩
  · rw [past_of_ne fun same => here (Option.some.inj same)] at goes
    obtain rfl := Option.some.inj goes
    exact ⟨.single first, source, link⟩

theorem running_unlinked_some (formed : g.WellFormed roots) (skipped : NodeId) {id : NodeId}
    (inside : id < g.size) : (g.unlinked skipped).running (some id) = [id].filter g.isEnabled ++
      (g.unlinked skipped).running (g.past skipped (g.following id)) := by
  have others := formed.unlinked skipped
  have alsoInside : id < (g.unlinked skipped).size := by rwa [Graph.unlinked, size_rewire]
  rw [running_some others.closed others.acyclic alsoInside, Graph.unlinked, isEnabled_rewire,
    following_rewire _ _ past_none]

theorem valueTargets_unlinked (skipped id : NodeId) :
    (g.unlinked skipped).valueTargets id = g.valueTargets id := by
  rw [Graph.unlinked, valueTargets_rewire]
  simp only [OrderedMap.mapValues_id]
  rfl

theorem notes_unlinked (skipped : NodeId) (depth : Nat) (id : NodeId) :
    (g.unlinked skipped).notes depth id = g.notes depth id := by
  induction depth generalizing id with
  | zero => rw [notes_zero, notes_zero, Graph.unlinked, comment?_rewire]
  | succ depth inductionHypothesis =>
      rw [notes_succ, notes_succ, valueTargets_unlinked, Graph.unlinked, comment?_rewire]
      exact congrArg _ (List.flatMap_congr fun child _ => inductionHypothesis child)

/-- Comments stay in front of the statements where they were. -/
theorem commentsBefore_unlinked (skipped : NodeId) (width : Nat) (id : NodeId) :
    (g.unlinked skipped).commentsBefore width id = g.commentsBefore width id := by
  have nested : (g.unlinked skipped).nestedComments = g.nestedComments := funext fun child => by
    rw [nestedComments_eq, nestedComments_eq, notes_unlinked, Graph.unlinked, size_rewire]
  rw [commentsBefore, commentsBefore, nested, valueTargets_unlinked, Graph.unlinked,
    comment?_rewire]

variable (formed : g.WellFormed roots) (off : g.isDisabled skipped = true)
include formed off

/-- Behind a link that leads past a disabled statement the same statements run. -/
theorem running_past {held : Option NodeId} (inside : ∀ id ∈ held, id < g.size) :
    (g.unlinked skipped).running (g.past skipped held) = g.running held := by
  refine follow_induction formed.closed formed.acyclic rfl
    (fun id inGraph inductionHypothesis => ?_) inside
  rw [running_some formed.closed formed.acyclic inGraph]
  by_cases here : id = skipped
  · subst here
    -- nothing follows itself, so that what follows is not linked past
    have other : g.following id ≠ some id := fun loop =>
      formed.acyclic id (.single (following_eq_some_iff.mp loop).links)
    rw [past_of_ne other] at inductionHypothesis
    rw [past_self, List.filter_cons_of_neg (by simp [isEnabled_of_isDisabled off]), List.filter_nil,
      List.nil_append, inductionHypothesis]
  · rw [past_of_ne fun same => here (Option.some.inj same),
      running_unlinked_some formed skipped inGraph, inductionHypothesis]

theorem running_unlinked {id : NodeId} (inside : id < g.size) :
    (g.unlinked skipped).running (some id) = g.running (some id) := by
  have later : ∀ next ∈ g.following id, next < g.size := fun next goes =>
    formed.closed _ _ (following_eq_some_iff.mp goes).links
  rw [running_unlinked_some formed skipped inside, running_past formed off later,
    running_some formed.closed formed.acyclic inside]

end

/-! ### Expressions that are taken out of their slots -/

/-- What is left in a slot: nothing of a disabled node. -/
def keepEnabled (g : Graph) (held : Option NodeId) : Option NodeId :=
  held.filter fun id => !g.isDisabled id

theorem keepEnabled_of_isDisabled {id : NodeId} (off : g.isDisabled id = true) :
    g.keepEnabled (some id) = none := by
  rw [keepEnabled, Option.filter_some, if_neg (by simp [off])]

theorem keepEnabled_of_not_isDisabled {id : NodeId} (on : ¬g.isDisabled id = true) :
    g.keepEnabled (some id) = some id := by
  rw [keepEnabled, Option.filter_some, if_pos (by simp [on])]

/-- Every value slot that holds a disabled node stays, but empty. -/
def unplugged (g : Graph) : Graph := g.rewire g.keepEnabled id

theorem WellFormed.unplugged (formed : g.WellFormed roots) : g.unplugged.WellFormed roots := by
  refine formed.rewire rfl rfl (fun child target kept => ?_) fun source head target link same => ?_
  · by_cases off : g.isDisabled child = true
    · simp [keepEnabled_of_isDisabled off] at kept
    · rw [keepEnabled_of_not_isDisabled off] at kept
      exact (Option.some.inj kept).symm
  · obtain rfl := Option.some.inj same
    exact ⟨.single (links_iff_slots.mpr (.inr link)), source, link⟩

section

variable (formed : g.WellFormed roots)
include formed

theorem running_unplugged {held : Option NodeId} (inside : ∀ id ∈ held, id < g.size) :
    g.unplugged.running held = g.running held := by
  have others := formed.unplugged
  refine follow_induction formed.closed formed.acyclic rfl
    (fun id inGraph inductionHypothesis => ?_) inside
  have alsoInside : id < g.unplugged.size := by rwa [Graph.unplugged, size_rewire]
  have follows : g.unplugged.following id = g.following id := following_rewire _ _ rfl id
  have enabled : g.unplugged.isEnabled = g.isEnabled := isEnabled_rewire _ _
  rw [running_some formed.closed formed.acyclic inGraph,
    running_some others.closed others.acyclic alsoInside, follows, enabled, inductionHypothesis]

/-- A disabled expression runs like an empty slot. -/
theorem running_keepEnabled {source child : NodeId} (link : g.LinksValue source child) :
    g.unplugged.running (g.keepEnabled (some child)) = g.running (some child) := by
  have inside := formed.closed _ _ link.links
  obtain ⟨node, found, shape⟩ := formed.values source child link
  by_cases off : g.isDisabled child = true
  · rw [running_of_following_eq_none formed.closed formed.acyclic inside
      (formed.following_eq_none found shape), keepEnabled_of_isDisabled off, running_none,
      List.filter_cons_of_neg (by simp [isEnabled_of_isDisabled off]), List.filter_nil]
  · rw [keepEnabled_of_not_isDisabled off]
    exact running_unplugged formed (by simpa using inside)

end

/-- What hangs in the slots of `unplugged` are the nodes that are not disabled. -/
theorem valueTargets_unplugged (id : NodeId) :
    g.unplugged.valueTargets id = (g.valueTargets id).filter fun child => !g.isDisabled child := by
  rw [Graph.unplugged, valueTargets_rewire, valueTargets]
  cases g.get? id with
  | none => rfl
  | some node =>
      simp only [Option.map_some, Option.getD_some, Slots.targets, OrderedMap.mapValues,
        List.filterMap_map, List.filter_filterMap]
      rfl

/-- No comments are found from a disabled node in a value slot. -/
def QuietWhereDisabled (g : Graph) : Prop :=
  ∀ parent child, g.LinksValue parent child → g.isDisabled child = true →
    g.nestedComments child = []

theorem isDisabled_uncommented (g : Graph) : g.uncommented.isDisabled = g.isDisabled := by
  funext id
  rw [isDisabled, isDisabled, get?_uncommented]
  cases g.get? id <;> rfl

theorem unplugged_uncommented (g : Graph) : g.uncommented.unplugged = g.unplugged.uncommented := by
  have keep : g.uncommented.keepEnabled = g.keepEnabled := funext fun held => by
    rw [keepEnabled, keepEnabled, isDisabled_uncommented]
  rw [Graph.unplugged, Graph.unplugged, keep]
  simp only [rewire, uncommented, Array.map_map]
  rfl

theorem quietWhereDisabled_uncommented (g : Graph) : g.uncommented.QuietWhereDisabled := by
  intro parent child _ _
  rw [nestedComments_eq, notes]
  simp [comment?_uncommented, layNotes]

theorem layNotes_eq_nil_iff {comments : List String} : layNotes comments = [] ↔ comments = [] := by
  cases comments with
  | nil => simp [layNotes]
  | cons first rest => simp [layNotes]

theorem flatMap_filter_of_eq_nil {α β : Type} {keep : α → Bool} {give : α → List β} {items : List α}
    (nothing : ∀ a ∈ items, keep a = false → give a = []) :
    (items.filter keep).flatMap give = items.flatMap give := by
  induction items with
  | nil => rfl
  | cons a items inductionHypothesis =>
      rw [List.forall_mem_cons] at nothing
      rw [List.flatMap_cons, ← inductionHypothesis nothing.2]
      by_cases kept : keep a = true
      · rw [List.filter_cons_of_pos kept, List.flatMap_cons]
      · rw [List.filter_cons_of_neg kept, nothing.1 (Bool.eq_false_iff.mpr kept), List.nil_append]

/-- What disabled nodes give nothing to is the same with their slots emptied. -/
theorem flatMap_unplugged {β : Type} {give : NodeId → List β} {id : NodeId}
    (nothing : ∀ child, g.LinksValue id child → g.isDisabled child = true → give child = []) :
    (g.unplugged.valueTargets id).flatMap give = (g.valueTargets id).flatMap give := by
  rw [valueTargets_unplugged]
  refine flatMap_filter_of_eq_nil fun child hangs off => ?_
  exact nothing child (mem_valueTargets.mp hangs) (by simpa using off)

theorem notes_eq_nil_of_le {depth more : Nat} (le : depth ≤ more) {id : NodeId}
    (quiet : g.notes more id = []) : g.notes depth id = [] := by
  induction le with
  | refl => exact quiet
  | step _ inductionHypothesis =>
      exact inductionHypothesis (List.subset_nil.mp (quiet ▸ notes_subset _ id))

section

variable (quiet : g.QuietWhereDisabled)
include quiet

theorem notes_unplugged {depth : Nat} (bound : depth ≤ g.size) (id : NodeId) :
    g.unplugged.notes depth id = g.notes depth id := by
  induction depth generalizing id with
  | zero => rw [notes_zero, notes_zero, Graph.unplugged, comment?_rewire]
  | succ depth inductionHypothesis =>
      have below : depth ≤ g.size := (Nat.le_succ depth).trans bound
      have each : g.unplugged.notes depth = g.notes depth := funext (inductionHypothesis below)
      have silent : ∀ child, g.LinksValue id child → g.isDisabled child = true →
          g.notes depth child = [] := fun child link off => by
        have nested := quiet id child link off
        rw [nestedComments_eq, layNotes_eq_nil_iff] at nested
        exact notes_eq_nil_of_le below nested
      rw [notes_succ, notes_succ, each, flatMap_unplugged silent, Graph.unplugged, comment?_rewire]

theorem commentsBefore_unplugged (width : Nat) (id : NodeId) :
    g.unplugged.commentsBefore width id = g.commentsBefore width id := by
  have nested : g.unplugged.nestedComments = g.nestedComments := funext fun child => by
    have size : g.unplugged.size = g.size := size_rewire _ _ g
    rw [nestedComments_eq, nestedComments_eq, size, notes_unplugged quiet le_rfl]
  have silent : ∀ child, g.LinksValue id child → g.isDisabled child = true →
      Text.prefixLines Text.commentMark (g.nestedComments child) = [] := fun child link off => by
    rw [quiet id child link off]
    rfl
  rw [commentsBefore, commentsBefore, nested, flatMap_unplugged silent, Graph.unplugged,
    comment?_rewire]

end

end BlockVerilog.Graph
