import BlockVerilog.Proofs.Handlers.Locality

/-!
What the settings of a pass can change of a script.

The settings decide whether a delay declares a time scale, and they go into the answers that a
script gets. Neither changes the questions that a built-in handler asks, nor the error it makes.
-/

namespace BlockVerilog

namespace Script

variable {α β : Type}

/-- Two scripts ask the same questions and end in the same error or both in a value, whatever each
is answered. Declarations do not count. -/
inductive SharesFate : Script α → Script α → Prop
  | done (first second : α) : SharesFate (.done first) (.done second)
  | fail (e : PassError) : SharesFate (.fail e) (.fail e)
  | value (node : NodeId) (slot : String) (required : Precedence)
      {first second : Option String → Script α}
      (next : ∀ text other, SharesFate (first text) (second other)) :
      SharesFate (.value node slot required first) (.value node slot required second)
  | statements (node : NodeId) (slot : String) {first second : String → Script α}
      (next : ∀ text other, SharesFate (first text) (second other)) :
      SharesFate (.statements node slot first) (.statements node slot second)
  | variableName (id : String) {first second : String → Script α}
      (next : ∀ name other, SharesFate (first name) (second other)) :
      SharesFate (.variableName id first) (.variableName id second)
  | freshName (wanted : String) {first second : String → Script α}
      (next : ∀ name other, SharesFate (first name) (second other)) :
      SharesFate (.freshName wanted first) (.freshName wanted second)
  | defineLeft (key text : String) {first : Bool → Script α} {second : Script α}
      (next : ∀ isNew, SharesFate (first isNew) second) :
      SharesFate (.define key text first) second
  | defineRight (key text : String) {first : Script α} {second : Bool → Script α}
      (next : ∀ isNew, SharesFate first (second isNew)) :
      SharesFate first (.define key text second)

theorem SharesFate.bind {first second : Script α} {firstNext secondNext : α → Script β}
    (shares : SharesFate first second)
    (next : ∀ a b, SharesFate (firstNext a) (secondNext b)) :
    SharesFate (first >>= firstNext) (second >>= secondNext) := by
  induction shares with
  | done a b => exact next a b
  | fail e => exact .fail e
  | value node slot required _ inductionHypothesis =>
      exact .value node slot required inductionHypothesis
  | statements node slot _ inductionHypothesis => exact .statements node slot inductionHypothesis
  | variableName id _ inductionHypothesis => exact .variableName id inductionHypothesis
  | freshName wanted _ inductionHypothesis => exact .freshName wanted inductionHypothesis
  | defineLeft key text _ inductionHypothesis => exact .defineLeft key text inductionHypothesis
  | defineRight key text _ inductionHypothesis => exact .defineRight key text inductionHypothesis

@[simp] theorem sharesFate_done (first second : α) : SharesFate (.done first) (.done second) :=
  .done first second

@[simp] theorem sharesFate_fail (e : PassError) : SharesFate (.fail e : Script α) (.fail e) :=
  .fail e

@[simp] theorem sharesFate_value_iff {node : NodeId} {slot : String} {required : Precedence}
    {first second : Option String → Script α} :
    SharesFate (.value node slot required first) (.value node slot required second) ↔
      ∀ text other, SharesFate (first text) (second other) :=
  ⟨fun shares => by cases shares; assumption, .value node slot required⟩

@[simp] theorem sharesFate_statements_iff {node : NodeId} {slot : String}
    {first second : String → Script α} :
    SharesFate (.statements node slot first) (.statements node slot second) ↔
      ∀ text other, SharesFate (first text) (second other) :=
  ⟨fun shares => by cases shares; assumption, .statements node slot⟩

@[simp] theorem sharesFate_variableName_iff {id : String} {first second : String → Script α} :
    SharesFate (.variableName id first) (.variableName id second) ↔
      ∀ name other, SharesFate (first name) (second other) :=
  ⟨fun shares => by cases shares; assumption, .variableName id⟩

end Script

/-- The same node under other settings. -/
def Site.under (site : Site) (config : Config) : Site := { site with config := config }

@[simp] theorem Site.field_under (site : Site) (config : Config) (name : String) :
    (site.under config).field name = site.field name := rfl

namespace Handler

/-- What a handler asks and what it fails with does not depend on the settings, nor on the answers
it gets. -/
def SharesFate : Handler → Prop
  | expression generate =>
      ∀ site config, Script.SharesFate (generate site) (generate (site.under config))
  | statement generate =>
      ∀ site config, Script.SharesFate (generate site) (generate (site.under config))

@[simp] theorem sharesFate_expression {generate : Site → Script Expression} :
    (expression generate).SharesFate ↔
      ∀ site config, Script.SharesFate (generate site) (generate (site.under config)) := Iff.rfl

@[simp] theorem sharesFate_statement {generate : Site → Script String} :
    (statement generate).SharesFate ↔
      ∀ site config, Script.SharesFate (generate site) (generate (site.under config)) := Iff.rfl

end Handler

namespace Handlers

attribute [local simp] Site.value Site.valueOr Site.statements Site.under

theorem declareTimescale_sharesFate (site : Site) (config : Config) :
    Script.SharesFate (declareTimescale site) (declareTimescale (site.under config)) := by
  have silent : Script.SharesFate (.done ()) (declareTimescale (site.under config)) := by
    unfold declareTimescale
    split
    · exact .done () ()
    · exact .defineRight _ _ fun _ => .done () ()
  unfold declareTimescale
  split
  · exact silent
  · exact .defineLeft _ _ fun _ => silent

theorem alwaysDelay_sharesFate : alwaysDelay.SharesFate := fun site config =>
  (declareTimescale_sharesFate site config).bind fun _ _ => by simp

theorem delay_sharesFate : delay.SharesFate := fun site config =>
  (declareTimescale_sharesFate site config).bind fun _ _ => by simp

theorem branches_sharesFate (site : Site) (config : Config) (count n : Nat) :
    Script.SharesFate (branches site count n) (branches (site.under config) count n) := by
  induction count generalizing n with
  | zero => exact .done "" ""
  | succ count inductionHypothesis =>
      apply Script.SharesFate.value
      intro condition otherCondition
      apply Script.SharesFate.statements
      intro body otherBody
      exact (inductionHypothesis (n + 1)).bind fun _ _ => .done _ _

theorem conditional_sharesFate : conditional.SharesFate := by
  intro site config
  apply (branches_sharesFate site config (branchCount site.node) 0).bind
  intro chain otherChain
  apply Script.SharesFate.bind (α := String)
  · unfold otherwise
    by_cases there : site.node.statements.contains "ELSE" = true
    · simp [there]
    · simp [there]
  · exact fun _ _ => .done _ _

theorem binary_sharesFate (choice : String → Option BinaryOperator) :
    (binary choice).SharesFate := by
  unfold binary
  rw [Handler.sharesFate_expression]
  intro site config
  rw [Site.field_under]
  cases choice (site.field operatorField) with
  | some op => simp [BinaryOperator.script]
  | none => exact .fail _

theorem logical_sharesFate (and or : BinaryOperator) : (logical and or).SharesFate := by
  unfold logical
  rw [Handler.sharesFate_expression]
  intro site config
  rw [Site.field_under]
  cases logical? and or (site.field operatorField) with
  | some op => simp [LogicalOperator.script]
  | none => exact .fail _

theorem sharesFate_of_mem_builtin {entry : String × Handler} (known : entry ∈ builtin) :
    entry.2.SharesFate := by
  have signs : logicSigns.SharesFate := logical_sharesFate _ _
  have words : logicWords.SharesFate := logical_sharesFate _ _
  revert entry
  simp [builtin, alwaysDelay_sharesFate, delay_sharesFate, conditional_sharesFate,
    binary_sharesFate, signs, words, truthValue, constant, number, variableRead, sizedValue,
    sizedStatement, negation, ternary, edge, bitSelect, concatenation, replication, moduleHead,
    testHead, fixedLine, port, gate, inverter, assignment, alwaysBlock, initialBlock,
    twoWayConditional, display, monitor, Site.field]

end Handlers

/-- Handlers whose questions and errors do not depend on the settings. -/
def HandlerTable.IgnoresSettings (table : HandlerTable) : Prop :=
  ∀ kind handler, table.get? kind = some handler → handler.SharesFate

theorem HandlerTable.builtin_ignoresSettings : HandlerTable.builtin.IgnoresSettings :=
  fun _ _ registered => Handlers.sharesFate_of_mem_builtin (mem_builtin registered)

end BlockVerilog
