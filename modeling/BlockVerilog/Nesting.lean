/-!
Steps nested in each other to any depth, run from the innermost outwards.

The run is a loop, so that its depth is not bounded by that of the machine's stack.
-/

namespace BlockVerilog.Nesting

universe u

variable {α : Type u}

/-- The result of `depth` steps around `innermost`; a step is told how deep it nests others. -/
def run (step : Nat → α → α) (innermost : α) (depth : Nat) : α :=
  (List.range depth).foldl (fun inner n => step (n + 1) inner) innermost

@[simp] theorem run_zero (step : Nat → α → α) (innermost : α) : run step innermost 0 = innermost :=
  rfl

theorem run_succ (step : Nat → α → α) (innermost : α) (depth : Nat) :
    run step innermost (depth + 1) = step (depth + 1) (run step innermost depth) := by
  simp [run, List.range_succ]

/-- The sum of the depths of nested steps. -/
def total (depth : Nat) : Nat := run (· + ·) 0 depth

theorem total_succ (depth : Nat) : total (depth + 1) = depth + 1 + total depth :=
  run_succ _ _ depth

end BlockVerilog.Nesting
