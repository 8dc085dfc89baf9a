import BlockVerilog.Proofs.Handlers.Layout

/-!
What the built-in handlers leave behind, and what their texts look like.

Without a time scale they declare nothing, and they never make up a name. What is left is the name
of a variable, which is known beforehand where the workspace has the variable. From bodies of whole
lines they make whole lines, whatever the indentation is.
-/

namespace BlockVerilog

open Text

/-- The id of the variable that a node reads or assigns, if it is of such a kind. -/
def Node.variable? (node : Node) : Option String :=
  match node.kind with
  | "variables_get" => some (node.field "VAR")
  | "assign_block" | "variables_set_parallel" => some (node.field "var")
  | _ => none

namespace Script

variable {α β : Type}

/-- A script declares nothing, makes up no name, and asks for names of known variables only. -/
def IsReadOnly (known : String → Prop) : Script α → Prop
  | done _ => True
  | fail _ => True
  | value _ _ _ next => ∀ text, (next text).IsReadOnly known
  | statements _ _ next => ∀ text, (next text).IsReadOnly known
  | variableName id next => known id ∧ ∀ name, (next name).IsReadOnly known
  | freshName _ _ => False
  | define _ _ _ => False

theorem isReadOnly_bind {known : String → Prop} {script : Script α} {f : α → Script β}
    (first : script.IsReadOnly known) (second : ∀ a, (f a).IsReadOnly known) :
    (script >>= f).IsReadOnly known := by
  induction script with
  | done a => exact second a
  | fail e => trivial
  | value node slot required next inductionHypothesis
  | statements node slot next inductionHypothesis =>
      exact fun text => inductionHypothesis text (first text)
  | variableName id next inductionHypothesis =>
      exact ⟨first.1, fun name => inductionHypothesis name (first.2 name)⟩
  | freshName wanted next => exact first.elim
  | define key text next => exact first.elim

/-- Of solid texts and names, and of bodies, a script makes results with `post`. -/
def Makes (post : α → Prop) : Script α → Prop
  | done a => post a
  | fail _ => True
  | value _ _ _ next => ∀ text, text.all solid = true → (next text).Makes post
  | statements _ _ next => ∀ body, IsBody body → (next body).Makes post
  | variableName _ next => ∀ name, solid name = true → (next name).Makes post
  | freshName _ next => ∀ name, solid name = true → (next name).Makes post
  | define _ _ next => ∀ isNew, (next isNew).Makes post

theorem InStep.makes {related : α → α → Prop} {first second : Script α} {post : α → Prop}
    (inStep : InStep related first second) (holds : ∀ a b, related a b → post a) :
    first.Makes post := by
  induction inStep with
  | done results => exact holds _ _ results
  | fail error => trivial
  | value node slot required _ inductionHypothesis => exact inductionHypothesis
  | statements node slot _ inductionHypothesis =>
      exact fun body whole => inductionHypothesis body body ⟨rfl, whole, whole⟩
  | variableName id _ inductionHypothesis => exact inductionHypothesis
  | freshName wanted _ inductionHypothesis => exact inductionHypothesis
  | define key text _ inductionHypothesis => exact inductionHypothesis

end Script

namespace Handler

/-- A handler makes visible expressions, or statements that are blocks. -/
def MakesBlocks : Handler → Prop
  | expression generate => ∀ site, (generate site).Makes fun given => solid given.1 = true
  | statement generate => ∀ site, (generate site).Makes IsBlock

theorem InStep.makesBlocks {handler : Handler} (inStep : handler.InStep) : handler.MakesBlocks := by
  cases handler with
  | expression generate =>
      intro site
      apply (inStep site).makes
      rintro first _ ⟨rfl, visible⟩
      exact visible
  | statement generate =>
      intro site
      apply (inStep site).makes
      intro first second same
      exact same.first

/-- At a node, a handler only reads what is known. -/
def IsReadOnly (known : String → Prop) (site : Site) : Handler → Prop
  | expression generate => (generate site).IsReadOnly known
  | statement generate => (generate site).IsReadOnly known

@[simp] theorem isReadOnly_expression {known : String → Prop} {site : Site}
    {generate : Site → Script Expression} :
    (expression generate).IsReadOnly known site ↔ (generate site).IsReadOnly known := Iff.rfl

@[simp] theorem isReadOnly_statement {known : String → Prop} {site : Site}
    {generate : Site → Script String} :
    (statement generate).IsReadOnly known site ↔ (generate site).IsReadOnly known := Iff.rfl

end Handler

namespace Handlers

/-- The handlers of the kinds that name a variable. -/
def variableHandlers : List (String × Handler) :=
  [("variables_get", variableRead), ("assign_block", assignment "assign " "="),
    ("variables_set_parallel", assignment "" "<=")]

section

attribute [local simp] Script.IsReadOnly Site.value Site.valueOr Site.statements Site.invalidField

variable {known : String → Prop} (site : Site)

theorem branches_isReadOnly (count n : Nat) : (branches site count n).IsReadOnly known := by
  induction count generalizing n with
  | zero => trivial
  | succ count inductionHypothesis =>
      intro condition body
      apply Script.isReadOnly_bind (inductionHypothesis (n + 1))
      intro _
      trivial

theorem conditional_isReadOnly : conditional.IsReadOnly known site := by
  apply Script.isReadOnly_bind (branches_isReadOnly site _ _)
  intro _
  apply Script.isReadOnly_bind (α := String)
  · unfold otherwise
    split
    · simp
    · simp
  · exact fun _ => trivial

theorem binary_isReadOnly (choice : String → Option BinaryOperator) :
    (binary choice).IsReadOnly known site := by
  unfold binary
  rw [Handler.isReadOnly_expression]
  split
  · simp [BinaryOperator.script]
  · simp

theorem logical_isReadOnly (and or : BinaryOperator) :
    (logical and or).IsReadOnly known site := by
  unfold logical
  rw [Handler.isReadOnly_expression]
  split
  · simp [LogicalOperator.script]
  · simp

/-- Without a time scale only the kinds that name a variable ask for more than slots. -/
theorem isReadOnly_or_variable (timeless : site.config.timescale = none)
    {entry : String × Handler} (registered : entry ∈ builtin) :
    entry.2.IsReadOnly known site ∨ entry ∈ variableHandlers := by
  have signs : logicSigns.IsReadOnly known site := logical_isReadOnly site _ _
  have words : logicWords.IsReadOnly known site := logical_isReadOnly site _ _
  revert entry
  simp [builtin, variableHandlers, timeless, declareTimescale, alwaysDelay, delay,
    conditional_isReadOnly, binary_isReadOnly, signs, words, truthValue, constant, number,
    variableRead, sizedValue, sizedStatement, negation, ternary, edge, bitSelect, concatenation,
    replication, moduleHead, testHead, fixedLine, port, gate, inverter, assignment, alwaysBlock,
    initialBlock, twoWayConditional, display, monitor]

theorem isReadOnly_of_mem_builtin (timeless : site.config.timescale = none) {handler : Handler}
    (registered : (site.node.kind, handler) ∈ builtin)
    (names : ∀ id, site.node.variable? = some id → known id) :
    handler.IsReadOnly known site := by
  rcases isReadOnly_or_variable site timeless registered with readOnly | reads
  · exact readOnly
  · unfold Node.variable? at names
    simp only [variableHandlers, List.mem_cons, Prod.mk.injEq, List.not_mem_nil,
      or_false] at reads
    rcases reads with ⟨kind, rfl⟩ | ⟨kind, rfl⟩ | ⟨kind, rfl⟩
    · rw [kind] at names
      exact ⟨names _ rfl, fun _ => trivial⟩
    · rw [kind] at names
      exact ⟨names _ rfl, fun _ _ => trivial⟩
    · rw [kind] at names
      exact ⟨names _ rfl, fun _ _ => trivial⟩

end

end Handlers

end BlockVerilog
