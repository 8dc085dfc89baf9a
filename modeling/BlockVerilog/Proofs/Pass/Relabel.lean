import BlockVerilog.Proofs.Pass.Outcome

/-!
Computations that differ only in what their errors call nodes.
-/

namespace BlockVerilog

namespace PassError

/-- The same error, with the node it names called otherwise. -/
def relabel (label : String → String) : PassError → PassError
  | unsupportedKind node kind => unsupportedKind (label node) kind
  | shapeMismatch node kind registered found => shapeMismatch (label node) kind registered found
  | invalidField node field value => invalidField (label node) field value
  | other => other

@[simp] theorem relabel_id (e : PassError) : e.relabel id = e := by
  cases e <;> rfl

end PassError

theorem mapError_relabel_id {α : Type} (result : Except PassError α) :
    result.mapError (PassError.relabel id) = result := by
  cases result with
  | error e => exact congrArg Except.error e.relabel_id
  | ok a => rfl

namespace Pass

variable {α β : Type} {label : String → String}

/-- From every state two computations give the same result and leave the same state, or fail with
errors that are the same once their nodes are called by `label`. -/
def AgreeUpTo (label : String → String) (first second : Pass α) : Prop :=
  ∀ state, (first.outcome state).1.mapError (PassError.relabel label) =
      (second.outcome state).1.mapError (PassError.relabel label) ∧
    (first.outcome state).2 = (second.outcome state).2

theorem agreeUpTo_refl (c : Pass α) : AgreeUpTo label c c := fun _ => ⟨rfl, rfl⟩

theorem agreeUpTo_throw {e other : PassError} (same : e.relabel label = other.relabel label) :
    AgreeUpTo label (throw e : Pass α) (throw other) := fun _ => ⟨congrArg Except.error same, rfl⟩

theorem agreeUpTo_bind {first second : Pass α} {firstNext secondNext : α → Pass β}
    (agree : AgreeUpTo label first second)
    (next : ∀ a, AgreeUpTo label (firstNext a) (secondNext a)) :
    AgreeUpTo label (first >>= firstNext) (second >>= secondNext) := by
  intro state
  have begun := agree state
  revert begun
  rw [outcome_bind, outcome_bind]
  rcases first.outcome state with ⟨e | a, after⟩ <;>
    rcases second.outcome state with ⟨other | b, otherAfter⟩ <;> rintro ⟨results, rfl⟩
  · exact ⟨congrArg Except.error (Except.error.inj results), rfl⟩
  · cases results
  · cases results
  · obtain rfl := Except.ok.inj results
    exact next a after

end Pass

end BlockVerilog
