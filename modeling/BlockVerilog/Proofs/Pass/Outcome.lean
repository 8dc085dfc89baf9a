import BlockVerilog.Pass.Generator

/-!
How the computations of a pass end.

`Ends` says what holds of the result, or of the error, and of the state that is left. It goes step
by step through a computation; nothing below needs to know how a pass carries state and errors.
-/

namespace BlockVerilog.Pass

variable {α β : Type}

/-- The result or error of a computation from a state, and the state it leaves. -/
def outcome (c : Pass α) (state : PassState) : Except PassError α × PassState := c.run.run state

/-- A computation from a state ends in a result with `post`, or in an error with `fails`. -/
def Ends (c : Pass α) (state : PassState) (post : α → PassState → Prop)
    (fails : PassError → PassState → Prop) : Prop :=
  match c.outcome state with
  | (.ok a, after) => post a after
  | (.error e, after) => fails e after

theorem outcome_bind (c : Pass α) (f : α → Pass β) (state : PassState) :
    outcome (c >>= f) state =
      match c.outcome state with
      | (.ok a, after) => (f a).outcome after
      | (.error e, after) => (.error e, after) := by
  unfold outcome
  rw [ExceptT.run_bind, StateT.run_bind]
  change (match c.run.run state with | (result, after) => _) = _
  rcases c.run.run state with ⟨_ | _, after⟩ <;> rfl

theorem outcome_bind_of_ok {c : Pass α} {state after : PassState} {a : α}
    (ran : c.outcome state = (.ok a, after)) (f : α → Pass β) :
    outcome (c >>= f) state = (f a).outcome after := by
  rw [outcome_bind, ran]

theorem outcome_bind_of_error {c : Pass α} {state after : PassState} {e : PassError}
    (failed : c.outcome state = (.error e, after)) (f : α → Pass β) :
    outcome (c >>= f) state = (.error e, after) := by
  rw [outcome_bind, failed]

theorem exists_of_outcome_bind {c : Pass α} {f : α → Pass β} {state after : PassState} {b : β}
    (ran : outcome (c >>= f) state = (.ok b, after)) :
    ∃ a between, c.outcome state = (.ok a, between) ∧ (f a).outcome between = (.ok b, after) := by
  rw [outcome_bind] at ran
  rcases begun : c.outcome state with ⟨e | a, between⟩
  · rw [begun] at ran
    cases ran
  · rw [begun] at ran
    exact ⟨a, between, rfl, ran⟩

@[simp] theorem ends_pure {a : α} {state : PassState} {post : α → PassState → Prop}
    {fails : PassError → PassState → Prop} :
    Ends (pure a) state post fails ↔ post a state := Iff.rfl

@[simp] theorem ends_throw {e : PassError} {state : PassState} {post : α → PassState → Prop}
    {fails : PassError → PassState → Prop} :
    Ends (throw e) state post fails ↔ fails e state := Iff.rfl

theorem ends_bind {c : Pass α} {f : α → Pass β} {state : PassState}
    {post : β → PassState → Prop} {fails : PassError → PassState → Prop} :
    Ends (c >>= f) state post fails ↔
      c.Ends state (fun a after => (f a).Ends after post fails) fails := by
  unfold Ends
  rw [outcome_bind]
  rcases c.outcome state with ⟨_ | _, after⟩ <;> rfl

@[simp] theorem ends_get {state : PassState} {post : PassState → PassState → Prop}
    {fails : PassError → PassState → Prop} :
    Ends get state post fails ↔ post state state := Iff.rfl

@[simp] theorem ends_set {replacement state : PassState} {post : PUnit → PassState → Prop}
    {fails : PassError → PassState → Prop} :
    Ends (set replacement) state post fails ↔ post ⟨⟩ replacement := Iff.rfl

@[simp] theorem ends_modify {change : PassState → PassState} {state : PassState}
    {post : PUnit → PassState → Prop} {fails : PassError → PassState → Prop} :
    Ends (modify change) state post fails ↔ post ⟨⟩ (change state) := Iff.rfl

theorem Ends.mono {c : Pass α} {state : PassState} {post postAfter : α → PassState → Prop}
    {fails failsAfter : PassError → PassState → Prop} (ends : c.Ends state post fails)
    (result : ∀ a after, post a after → postAfter a after)
    (error : ∀ e after, fails e after → failsAfter e after) :
    c.Ends state postAfter failsAfter := by
  revert ends
  unfold Ends
  rcases c.outcome state with ⟨_ | _, after⟩
  · exact error _ _
  · exact result _ _

/-- From every state a computation gives a result or fails with one of these errors. -/
def FailsOnly (allowed : PassError → Prop) (c : Pass α) : Prop :=
  ∀ state, c.Ends state (fun _ _ => True) fun e _ => allowed e

section

variable {allowed : PassError → Prop}

@[simp] theorem failsOnly_pure (a : α) : FailsOnly allowed (pure a) := fun _ => trivial

theorem failsOnly_throw {e : PassError} (isAllowed : allowed e) :
    FailsOnly allowed (throw e : Pass α) := fun _ => isAllowed

theorem failsOnly_bind {c : Pass α} {f : α → Pass β} (first : c.FailsOnly allowed)
    (second : ∀ a, (f a).FailsOnly allowed) : (c >>= f).FailsOnly allowed :=
  fun state => ends_bind.mpr ((first state).mono (fun a after _ => second a after) fun _ _ => id)

theorem failsOnly_get : FailsOnly allowed get := fun _ => trivial

theorem failsOnly_set (state : PassState) : FailsOnly allowed (set state) := fun _ => trivial

theorem failsOnly_modify (change : PassState → PassState) :
    FailsOnly allowed (modify change) := fun _ => trivial

theorem FailsOnly.mono {c : Pass α} {allowedAfter : PassError → Prop}
    (only : c.FailsOnly allowed) (more : ∀ e, allowed e → allowedAfter e) :
    c.FailsOnly allowedAfter :=
  fun state => (only state).mono (fun _ _ => id) fun e _ => more e

theorem FailsOnly.ok_or_error {c : Pass α} (only : c.FailsOnly allowed) (state : PassState) :
    (∃ a, (c.outcome state).1 = .ok a) ∨ ∃ e, (c.outcome state).1 = .error e ∧ allowed e := by
  have ends := only state
  revert ends
  unfold Ends
  rcases c.outcome state with ⟨e | a, after⟩
  · intro holds
    exact .inr ⟨e, rfl, holds⟩
  · intro _
    exact .inl ⟨a, rfl⟩

end

end BlockVerilog.Pass
