import BlockVerilog.Command.Source
import BlockVerilog.Proofs.Pass.Coverage
import BlockVerilog.Proofs.Pass.Fate
import BlockVerilog.Proofs.Pass.History

/-!
Checking a document foretells what generating its code comes to.

Both load the document and look at its program in the same way. What generation does beyond that
fails only at an unknown operator, and it does so under all settings or under none.
-/

namespace BlockVerilog

open Pass

variable {graph : Graph} {roots : List NodeId}

/-- How the generation of a graph ends, apart from its code. -/
def generationFate (graph : Graph) (roots : List NodeId) (config : Config) :
    Except PassError Unit :=
  ((Generator.mk graph .builtin config).generate roots).fate (.initial config)

theorem generationFate_eq (config other : Config) :
    generationFate graph roots config = generationFate graph roots other :=
  Generator.sharesFate_generate HandlerTable.builtin_ignoresSettings other roots _ _

theorem generate_eq_error_iff {config : Config} {e : PassError} :
    generate graph roots config = .error e ↔ generationFate graph roots config = .error e :=
  fate_eq_error_iff.symm

theorem exists_generate_eq_ok_iff {config : Config} :
    (∃ code, generate graph roots config = .ok code) ↔
      generationFate graph roots config = .ok () := fate_eq_ok_iff.symm

/-- The checks in front of a pass are the same under all settings. -/
theorem generate_of_refused (config : Config) {e : PassError}
    (refused : (Generator.mk graph .builtin .standard).precheck roots = .error e) :
    generate graph roots config = .error e := by
  have refusedToo : (Generator.mk graph .builtin config).precheck roots = .error e := refused
  exact congrArg Prod.fst (Generator.outcome_generate_of_error refusedToo (.initial config))

/-- Behind its checks a pass is refused an unknown operator at most. -/
theorem generate_of_accepted (config : Config)
    (accepted : (Generator.mk graph .builtin .standard).precheck roots = .ok ()) :
    (∃ code, generate graph roots config = .ok code) ∨
      ∃ node field value, generate graph roots config = .error (.invalidField node field value) := by
  obtain ⟨valid, checked⟩ := Generator.precheck_eq_ok_iff.mp accepted
  have covered : (Generator.mk graph .builtin config).Covered roots :=
    Generator.covered_of_checks HandlerTable.builtin_isLocal valid checked
  rcases covered.pass.ok_or_error (.initial config) with ran | ⟨e, failed, raised⟩
  · exact .inl ran
  · obtain ⟨id, node, texts, _, _, _, _, _, rfl⟩ :=
      Generator.refusesOperator_of_isRaised rfl raised
    exact .inr ⟨_, _, _, failed⟩

namespace Command

/-- What a check refuses is refused by generation with the same error, and what it accepts gives
code or has an unknown field, the same under all settings. -/
theorem check_foretells_generation (text : String) (config other : Config) :
    (∀ e, checkSource text = .error e → generateSource text config = .error e) ∧
    (∀ summary, checkSource text = .ok summary →
      (∃ code, generateSource text config = .ok code) ∨
        ∃ node field value,
          generateSource text config = .error (.invalidField node field value)) ∧
    ((∃ code, generateSource text config = .ok code) ↔
      ∃ code, generateSource text other = .ok code) ∧
    ∀ e, generateSource text config = .error e ↔ generateSource text other = .error e := by
  unfold checkSource generateSource
  cases load text with
  | error e => simp
  | ok program =>
      dsimp only
      refine ⟨?_, ?_, ?_, ?_⟩
      · intro e refused
        apply generate_of_refused
        split at refused
        next raised checked => exact checked.trans (congrArg _ (Except.error.inj refused))
        next => cases refused
      · intro summary accepted
        apply generate_of_accepted
        split at accepted
        next => cases accepted
        next checked => exact checked
      · rw [exists_generate_eq_ok_iff, exists_generate_eq_ok_iff, generationFate_eq config other]
      · intro e
        rw [generate_eq_error_iff, generate_eq_error_iff, generationFate_eq config other]

end Command

end BlockVerilog
