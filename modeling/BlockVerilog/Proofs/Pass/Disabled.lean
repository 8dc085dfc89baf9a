import Mathlib
import BlockVerilog.Proofs.Graph.Disabled
import BlockVerilog.Proofs.Pass.Layout
import BlockVerilog.Proofs.Pass.Pairing

/-!
What disabled nodes are to a pass.

A disabled statement is as good as linked past. A disabled expression is as good as an empty slot,
but for the comments found below it.
-/

namespace BlockVerilog

open BlockVerilog.Graph

theorem Slots.running_mapValues {g h : Graph} {slots : Slots}
    {change : Option NodeId → Option NodeId} (empty : change none = none)
    (same : ∀ target ∈ slots.targets, h.running (change (some target)) = g.running (some target))
    (slot : String) :
    h.running (Slots.target? (slots.mapValues change) slot) = g.running (slots.target? slot) := by
  rw [target?_mapValues empty]
  cases holds : slots.target? slot with
  | none => rw [empty, running_none, running_none]
  | some target => exact same target (mem_targets_of_target? holds)

/-- A graph with other links has the same text, if the same nodes run behind each of them and have
the same comments. -/
theorem generate_rewire {g : Graph} {roots : List NodeId} {config : Config}
    {value statement : Option NodeId → Option NodeId} (formed : g.WellFormed roots)
    (valueEmpty : value none = none) (statementEmpty : statement none = none)
    (otherFormed : (g.rewire value statement).WellFormed roots)
    (runs : ∀ id, id < g.size → (g.rewire value statement).running (some id) = g.running (some id))
    (values : ∀ source child, g.LinksValue source child →
      (g.rewire value statement).running (value (some child)) = g.running (some child))
    (statements : ∀ source head, g.LinksStatement source head →
      (g.rewire value statement).running (statement (some head)) = g.running (some head))
    (comments : ∀ id, (g.rewire value statement).commentsBefore config.commentWrap id =
      g.commentsBefore config.commentWrap id) :
    generate (g.rewire value statement) roots config = generate g roots config := by
  -- every node that is not disabled is paired with itself
  let pair : NodeId → NodeId → Prop := fun a b => a = b ∧ g.isEnabled a = true
  have running : ∀ held other, other = g.running held →
      List.Forall₂ pair (g.running held) other := by
    rintro held _ rfl
    exact List.forall₂_same.mpr fun id runs => ⟨rfl, (mem_running runs).1⟩
  have nodes : ∀ id node, g.get? id = some node →
      (g.rewire value statement).get? id = some (node.rewire value statement) := by
    intro id node found
    rw [get?_rewire, found, Option.map_some]
  have pairing : Pairing id g (g.rewire value statement) config.commentWrap pair := by
    refine ⟨rfl, ?_, fun a b paired => paired.1 ▸ (comments a).symm⟩
    rintro a _ ⟨rfl, on⟩
    obtain ⟨node, found, enabled⟩ := isEnabled_iff.mp on
    refine ⟨node, _, found, nodes a node found, ⟨enabled, enabled⟩, rfl, rfl, rfl, rfl,
      OrderedMap.keys_mapValues _ _, OrderedMap.keys_mapValues _ _, fun slot => ?_, fun slot => ?_⟩
    · apply running
      exact Slots.running_mapValues valueEmpty
        (fun child hangs => values a child ⟨node, found, hangs⟩) slot
    · apply running
      exact Slots.running_mapValues statementEmpty
        (fun head hangs => statements a head ⟨node, found, hangs⟩) slot
  have begun : List.Forall₂ (RootPair g (g.rewire value statement) pair) roots roots := by
    refine List.forall₂_same.mpr fun root listed => ?_
    have inside := (formed.roots root listed).1
    obtain ⟨node, found⟩ := exists_get? inside
    exact ⟨⟨node, _, found, nodes root node found, rfl⟩, running _ _ (runs root inside)⟩
  have same := generate_paired formed otherFormed pairing begun
  rw [mapError_relabel_id, mapError_relabel_id] at same
  exact same.symm

/-! ### Disabled statements -/

/-- A disabled node may be linked past: the graph stays valid, and with the built-in handlers it has
the same text, or fails with the same error. -/
theorem generate_unlinked {g : Graph} {roots : List NodeId} {skipped : NodeId} {node : Node}
    (accepted : g.validate roots = .ok ()) (found : g.get? skipped = some node)
    (disabled : node.enabled = false) (config : Config) :
    (g.unlinked skipped).validate roots = .ok () ∧
      generate (g.unlinked skipped) roots config = generate g roots config := by
  have formed := validate_eq_ok_iff.mp accepted
  have off : g.isDisabled skipped = true := by rw [isDisabled_of_get? found, disabled]; rfl
  refine ⟨validate_eq_ok_iff.mpr (formed.unlinked skipped), ?_⟩
  refine generate_rewire formed rfl past_none (formed.unlinked skipped) ?_ ?_ ?_ ?_
  · exact fun id inside => running_unlinked formed off inside
  · exact fun source child link => running_unlinked formed off (formed.closed _ _ link.links)
  · intro source head link
    have inside : ∀ id ∈ some head, id < g.size := by
      simpa using formed.closed _ _ link.links
    exact running_past formed off inside
  · exact fun id => commentsBefore_unlinked skipped config.commentWrap id

/-- A conditional whose last statement is disabled and shared by both of its branches. -/
def sharedEnd : Graph where
  nodes := #[
    { Node.blank "controls_if" .statement with
      values := .ofList [("IF0", some 1)]
      statements := .ofList [("DO0", some 2), ("ELSE", some 3)] },
    Node.blank "one" .expression,
    { Node.blank "finish_block" .statement with next := some 3 },
    { Node.blank "mystery" .statement with comment := "later", enabled := false }]
  vars := []

theorem sharedEnd_unlinked :
    (sharedEnd.validate [0] = .ok () ∧ (sharedEnd.unlinked 3).validate [0] = .ok ()) ∧
      generate (sharedEnd.unlinked 3) [0] .standard = generate sharedEnd [0] .standard := by
  have accepted : sharedEnd.validate [0] = .ok () := by cbv
  have found : sharedEnd.get? 3 = some
      { Node.blank "mystery" .statement with comment := "later", enabled := false } := rfl
  obtain ⟨valid, same⟩ := generate_unlinked accepted found rfl .standard
  exact ⟨⟨accepted, valid⟩, same⟩

example : generate sharedEnd [0] .standard =
    .ok "if (1) begin\n  $finish;\nend else begin\nend\n" := by
  cbv

/-! ### Disabled expressions -/

/-- If no comments are found below disabled expressions, their slots may be emptied. -/
theorem generate_eq_of_quiet {g : Graph} {roots : List NodeId} (formed : g.WellFormed roots)
    (quiet : g.QuietWhereDisabled) (config : Config) :
    generate g.unplugged roots config = generate g roots config := by
  refine generate_rewire formed rfl rfl formed.unplugged ?_ ?_ ?_ ?_
  · exact fun id inside => running_unplugged formed (by simpa using inside)
  · exact fun source child link => running_keepEnabled formed link
  · exact fun source head link => running_unplugged formed
      (by simpa using formed.closed _ _ link.links)
  · exact fun id => commentsBefore_unplugged quiet config.commentWrap id

theorem generate_uncommented_unplugged {g : Graph} {roots : List NodeId}
    (accepted : g.validate roots = .ok ()) (config : Config) :
    generate g.unplugged.uncommented roots config = generate g.uncommented roots config := by
  have valid := (g.validate_uncommented roots).trans accepted
  rw [← unplugged_uncommented]
  exact generate_eq_of_quiet (validate_eq_ok_iff.mp valid) (quietWhereDisabled_uncommented g) config

/-- Emptying the slots of disabled expressions removes comment lines at most: none if no comments
are found below them, and never any code. -/
theorem generate_unplugged {g : Graph} {roots : List NodeId} (accepted : g.validate roots = .ok ())
    (config : Config) :
    g.unplugged.validate roots = .ok () ∧
      (g.QuietWhereDisabled → generate g.unplugged roots config = generate g roots config) ∧
      generate g.unplugged.uncommented roots config = generate g.uncommented roots config ∧
      (config.IndentsBlank →
        SameOutcome (generate g.unplugged roots config) (generate g roots config)) := by
  have formed := validate_eq_ok_iff.mp accepted
  refine ⟨validate_eq_ok_iff.mpr formed.unplugged, fun quiet => ?_,
    generate_uncommented_unplugged accepted config, fun blank => ?_⟩
  · exact generate_eq_of_quiet formed quiet config
  · have first := sameOutcome_plain g.unplugged roots blank
    have second := sameOutcome_plain g roots blank
    rw [generate_uncommented_unplugged accepted] at first
    exact first.trans second.symm

/-- An assignment of a disabled bit with a comment. -/
def retiredBit (comment : String) : Graph where
  nodes := #[
    { Node.blank "assign_block" .statement with
      comment := "reset"
      fields := .ofList [("var", .text "y")]
      values := .ofList [("NAME", some 1)] },
    { Node.blank "one" .expression with comment := comment, enabled := false }]
  vars := []

theorem retiredBit_unplugged :
    ((retiredBit "").validate [0] = .ok () ∧ (retiredBit "").QuietWhereDisabled) ∧
      generate (retiredBit "").unplugged [0] .standard =
        generate (retiredBit "") [0] .standard := by
  have accepted : (retiredBit "").validate [0] = .ok () := by cbv
  have quiet : (retiredBit "").QuietWhereDisabled := by
    intro parent child link off
    have inside : child < 2 := (validate_eq_ok_iff.mp accepted).closed _ _ link.links
    obtain rfl | rfl := Nat.le_one_iff_eq_zero_or_eq_one.mp (Nat.lt_succ_iff.mp inside)
    · cases off
    · cbv
  exact ⟨⟨accepted, quiet⟩, (generate_unplugged accepted .standard).2.1 quiet⟩

/-- With a comment on a disabled expression the text changes as its slot is emptied. -/
theorem retiredBit_comment_stays :
    ¬ ∀ g roots config, Graph.validate g roots = .ok () →
      generate g.unplugged roots config = generate g roots config := by
  intro same
  have accepted : (retiredBit "old").validate [0] = .ok () := by cbv
  have kept : generate (retiredBit "old") [0] .standard =
      .ok "// reset\n// old\nassign y = X;\n" := by cbv
  have dropped : generate (retiredBit "old").unplugged [0] .standard =
      .ok "// reset\nassign y = X;\n" := by cbv
  have equal := same (retiredBit "old") [0] .standard accepted
  rw [kept, dropped] at equal
  exact absurd (Except.ok.inj equal) (by decide)

end BlockVerilog
