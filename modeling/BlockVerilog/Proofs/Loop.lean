/-!
Loops without a bound of their own.

A loop goes from state to state until there is no next one. That it ends is the existence of the
states it visits.
-/

namespace BlockVerilog.Loop

variable {State : Type} {step : State → Option State}

/-- The states that a loop visits before it ends, the first one included. -/
inductive Visits (step : State → Option State) : State → List State → Prop
  | last {state : State} (stops : step state = none) : Visits step state [state]
  | next {state following : State} {rest : List State} (goes : step state = some following)
      (visits : Visits step following rest) : Visits step state (state :: rest)

theorem Visits.unique {state : State} {first second : List State} (visits : Visits step state first)
    (again : Visits step state second) : first = second := by
  induction visits generalizing second with
  | last stops =>
      cases again with
      | last => rfl
      | next goes => exact absurd (stops.symm.trans goes) (by simp)
  | next goes _ inductionHypothesis =>
      cases again with
      | last stops => exact absurd (stops.symm.trans goes) (by simp)
      | next goesAgain visits =>
          obtain rfl := Option.some.inj (goes.symm.trans goesAgain)
          rw [inductionHypothesis visits]

/-- The step of a loop that counts as long as a condition holds of the next number. -/
def countStep (condition : Nat → Bool) (n : Nat) : Option Nat :=
  if condition (n + 1) then some (n + 1) else none

theorem visits_countStep {condition : Nat → Bool} {start steps : Nat}
    (holds : ∀ n, start < n → n ≤ start + steps → condition n = true)
    (fails : condition (start + steps + 1) = false) :
    Visits (countStep condition) start (List.range' start (steps + 1)) := by
  induction steps generalizing start with
  | zero => exact .last (by simpa [countStep] using fails)
  | succ steps inductionHypothesis =>
      rw [List.range'_succ]
      have goes : countStep condition start = some (start + 1) :=
        if_pos (holds (start + 1) (by omega) (by omega))
      refine .next goes (inductionHypothesis (fun n above below => ?_) ?_)
      · exact holds n (by omega) (by omega)
      · rwa [show start + 1 + steps + 1 = start + (steps + 1) + 1 by omega]

end BlockVerilog.Loop
