import BlockVerilog.Proofs.Command.Grammar

/-!
What an argument list asks for, by the arguments it holds.

An `-o` and the argument behind it belong together, whatever that argument is; every other argument
stands for itself. Where the arguments are taken in one after the other, the last path behind an
`-o` counts, a single `--check` is enough, and there is one document.
-/

namespace BlockVerilog.Command

/-- The arguments that stand behind an `-o`. -/
def outputPaths : List String → List String
  | "-o" :: path :: rest => path :: outputPaths rest
  | _ :: rest => outputPaths rest
  | [] => []

/-- The arguments that stand for themselves. -/
def plainArguments : List String → List String
  | "-o" :: _ :: rest => plainArguments rest
  | argument :: rest => argument :: plainArguments rest
  | [] => []

def documentPaths (arguments : List String) : List String :=
  (plainArguments arguments).filter isDocument

theorem outputPaths_of_ne {argument : String} (plain : argument ≠ "-o") (rest : List String) :
    outputPaths (argument :: rest) = outputPaths rest := by
  cases rest <;> simp [outputPaths, plain]

theorem plainArguments_of_ne {argument : String} (plain : argument ≠ "-o") (rest : List String) :
    plainArguments (argument :: rest) = argument :: plainArguments rest := by
  cases rest <;> simp [plainArguments, plain]

theorem documentPaths_of_ne {argument : String} (plain : argument ≠ "-o") (rest : List String) :
    documentPaths (argument :: rest) = [argument].filter isDocument ++ documentPaths rest := by
  rw [documentPaths, plainArguments_of_ne plain, ← List.singleton_append, List.filter_append,
    documentPaths]

namespace Request.Spells

variable {argument : String} {asked : Request}

theorem checkOnly_iff (spells : asked.Spells argument) :
    asked = .checkOnly ↔ argument = "--check" := by
  constructor
  · rintro rfl
    cases spells
    rfl
  · rintro rfl
    exact Except.ok.inj (spells.request_eq.symm.trans rfl)

theorem document_iff (spells : asked.Spells argument) :
    asked = .document argument ↔ isDocument argument = true := by
  constructor
  · rintro rfl
    cases spells with
    | document given => exact given
  · intro given
    exact Except.ok.inj (spells.request_eq.symm.trans (Request.Spells.document given).request_eq)

theorem documents_eq (spells : asked.Spells argument) :
    Clause.documents [.plain asked] = [argument].filter isDocument := by
  cases asked with
  | document path =>
      cases spells with
      | document given => simp [Clause.documents, Clause.document?, given]
  | _ =>
      have other : ¬ isDocument argument = true := by
        intro given
        cases spells.document_iff.mpr given
      simp [Clause.documents, Clause.document?, List.filterMap_cons, other]

end Request.Spells

namespace Spelled

variable {clauses : List Clause} {arguments : List String}

theorem outputPaths_eq (spelled : Spelled clauses arguments) :
    outputPaths arguments = clauses.filterMap Clause.output? := by
  induction spelled with
  | nil => rfl
  | output rest inductionHypothesis => exact congrArg _ inductionHypothesis
  | plain spells rest inductionHypothesis =>
      rw [outputPaths_of_ne spells.ne_output, inductionHypothesis]
      rfl

theorem check_mem_iff (spelled : Spelled clauses arguments) :
    "--check" ∈ plainArguments arguments ↔ .plain .checkOnly ∈ clauses := by
  induction spelled with
  | nil => simp [plainArguments]
  | output rest inductionHypothesis => simpa [plainArguments] using inductionHypothesis
  | plain spells rest inductionHypothesis =>
      rw [plainArguments_of_ne spells.ne_output, List.mem_cons, List.mem_cons, inductionHypothesis,
        Clause.plain.injEq, eq_comm, ← spells.checkOnly_iff, eq_comm]

theorem documentPaths_eq (spelled : Spelled clauses arguments) :
    documentPaths arguments = Clause.documents clauses := by
  induction spelled with
  | nil => rfl
  | output rest inductionHypothesis => exact inductionHypothesis
  | plain spells rest inductionHypothesis =>
      rw [documentPaths_of_ne spells.ne_output, Clause.documents_cons, spells.documents_eq,
        inductionHypothesis]

end Spelled

/-- The options of an argument list, by the arguments it holds. -/
theorem parse_spec {arguments : List String} {options : Options}
    (parsed : parse arguments = .ok options) :
    documentPaths arguments = [options.input] ∧
      options.output = (outputPaths arguments).getLast? ∧
      (options.checkOnly = true ↔ "--check" ∈ plainArguments arguments) := by
  obtain ⟨clauses, input, spelled, named, rfl⟩ := parse_eq_ok_iff.mp parsed
  rw [spelled.documentPaths_eq, spelled.outputPaths_eq, spelled.check_mem_iff]
  exact ⟨named, rfl, decide_eq_true_iff⟩

end BlockVerilog.Command
