import Mathlib.Data.List.Nodup
import Mathlib.Data.List.Perm.Subperm
import BlockVerilog.Handlers.Conditional
import BlockVerilog.Proofs.Loop
import BlockVerilog.Proofs.Numerals

/-!
How many branches a conditional has.

Its slots have distinct names, so that one of the condition slots numbered on from one is missing
by the time as many numbers were tried as the node has slots.
-/

namespace BlockVerilog.Handlers

open Loop

theorem conditionSlot_injective {n m : Nat} (same : conditionSlot n = conditionSlot m) : n = m := by
  refine Numerals.toString_injective ?_
  have characters := congrArg String.toList same
  simpa [conditionSlot, ← String.toList_inj] using characters

/-- Whether a conditional has the condition slot of a number. -/
def hasCondition (node : Node) (n : Nat) : Bool := node.values.contains (conditionSlot n)

/-- Not all of more condition slots than the node has slots are there. -/
theorem exists_missing_condition (node : Node) :
    ∃ n, n < node.values.size + 1 ∧ hasCondition node (n + 1) = false := by
  by_contra present
  push Not at present
  let numbered := (List.range (node.values.size + 1)).map fun n => conditionSlot (n + 1)
  have distinct : numbered.Nodup :=
    List.nodup_range.map fun _ _ same => Nat.succ_inj.mp (conditionSlot_injective same)
  have declared : numbered ⊆ node.values.keys := by
    intro name listed
    obtain ⟨n, below, rfl⟩ := List.mem_map.mp listed
    have there := present n (List.mem_range.mp below)
    exact OrderedMap.contains_iff_mem_keys.mp (by simpa [hasCondition] using there)
  have bounded := (List.subperm_of_subset distinct declared).length_le
  simp only [numbered, List.length_map, List.length_range, OrderedMap.length_keys] at bounded
  omega

/-- The first number without a condition slot, counted from zero. -/
theorem length_takeWhile_range {p : Nat → Bool} {size : Nat}
    (missing : ∃ n, n < size + 1 ∧ p n = false) :
    let count := ((List.range size).takeWhile p).length
    (∀ n < count, p n = true) ∧ p count = false := by
  intro count
  have counts : count = (List.range size).findIdx fun n => !p n := by
    have bounded : (List.range size).findIdx (fun n => !p n) ≤ (List.range size).length :=
      List.findIdx_le_length
    simp only [count, List.takeWhile_eq_take_findIdx_not, List.length_take]
    exact Nat.min_eq_left bounded
  have holds : ∀ n < count, p n = true := by
    intro n below
    rw [counts] at below
    simpa using List.not_of_lt_findIdx below
  refine ⟨holds, ?_⟩
  by_cases inside : count < size
  · have found : (List.range size).findIdx (fun n => !p n) < (List.range size).length := by
      rwa [← counts, List.length_range]
    simpa [← counts] using List.findIdx_getElem (w := found)
  · obtain ⟨n, below, fails⟩ := missing
    have none_before : ¬ n < count := fun before => by simp [holds n before] at fails
    rwa [show count = n by omega]

/-- The loop over the branches ends after as many of them as `branchCount` says. -/
theorem visits_branches (node : Node) :
    Visits (countStep (hasCondition node)) 0 (List.range (branchCount node)) := by
  obtain ⟨present, missing⟩ := length_takeWhile_range (exists_missing_condition node)
  rw [List.range_eq_range', branchCount, Nat.add_comm 1]
  refine visits_countStep (fun n above below => ?_) ?_
  · rw [← Nat.sub_add_cancel above]
    exact present (n - 1) (by simpa [hasCondition] using by omega)
  · simpa [hasCondition] using missing

end BlockVerilog.Handlers
