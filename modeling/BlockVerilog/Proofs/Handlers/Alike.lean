import BlockVerilog.Proofs.Handlers.Locality
import BlockVerilog.Proofs.Pass.Relabel

/-!
What the built-in handlers see of a node.

At two nodes with the same fields and slot names, a handler asks the same questions, each about its
own node, and makes the same of the answers.
-/

namespace BlockVerilog

namespace Script

variable {α β : Type} {label : String → String} {a b : NodeId}

/-- One script asks about one node what the other asks about another, and both make the same of the
answers. -/
inductive Alike (label : String → String) (a b : NodeId) : Script α → Script α → Prop
  | done (result : α) : Alike label a b (.done result) (.done result)
  | fail {e other : PassError} (same : e.relabel label = other.relabel label) :
      Alike label a b (.fail e) (.fail other)
  | value (slot : String) (required : Precedence) {first second : Option String → Script α}
      (next : ∀ text, Alike label a b (first text) (second text)) :
      Alike label a b (.value a slot required first) (.value b slot required second)
  | statements (slot : String) {first second : String → Script α}
      (next : ∀ text, Alike label a b (first text) (second text)) :
      Alike label a b (.statements a slot first) (.statements b slot second)
  | variableName (id : String) {first second : String → Script α}
      (next : ∀ name, Alike label a b (first name) (second name)) :
      Alike label a b (.variableName id first) (.variableName id second)
  | freshName (wanted : String) {first second : String → Script α}
      (next : ∀ name, Alike label a b (first name) (second name)) :
      Alike label a b (.freshName wanted first) (.freshName wanted second)
  | define (key text : String) {first second : Bool → Script α}
      (next : ∀ isNew, Alike label a b (first isNew) (second isNew)) :
      Alike label a b (.define key text first) (.define key text second)

theorem Alike.bind {first second : Script α} {firstNext secondNext : α → Script β}
    (alike : Alike label a b first second)
    (next : ∀ result, Alike label a b (firstNext result) (secondNext result)) :
    Alike label a b (first >>= firstNext) (second >>= secondNext) := by
  induction alike with
  | done result => exact next result
  | fail same => exact .fail same
  | value slot required _ inductionHypothesis => exact .value slot required inductionHypothesis
  | statements slot _ inductionHypothesis => exact .statements slot inductionHypothesis
  | variableName id _ inductionHypothesis => exact .variableName id inductionHypothesis
  | freshName wanted _ inductionHypothesis => exact .freshName wanted inductionHypothesis
  | define key text _ inductionHypothesis => exact .define key text inductionHypothesis

@[simp] theorem alike_done_iff {first second : α} :
    Alike label a b (.done first) (.done second) ↔ first = second :=
  ⟨fun alike => by cases alike; rfl, fun same => same ▸ .done first⟩

@[simp] theorem alike_value_iff {slot : String} {required : Precedence}
    {first second : Option String → Script α} :
    Alike label a b (.value a slot required first) (.value b slot required second) ↔
      ∀ text, Alike label a b (first text) (second text) :=
  ⟨fun alike => by cases alike; assumption, .value slot required⟩

@[simp] theorem alike_statements_iff {slot : String} {first second : String → Script α} :
    Alike label a b (.statements a slot first) (.statements b slot second) ↔
      ∀ text, Alike label a b (first text) (second text) :=
  ⟨fun alike => by cases alike; assumption, .statements slot⟩

@[simp] theorem alike_variableName_iff {id : String} {first second : String → Script α} :
    Alike label a b (.variableName id first) (.variableName id second) ↔
      ∀ name, Alike label a b (first name) (second name) :=
  ⟨fun alike => by cases alike; assumption, .variableName id⟩

end Script

namespace Site

/-- Two nodes, each in its graph, that a handler cannot tell apart. -/
structure Alike (label : String → String) (first second : Site) : Prop where
  config : second.config = first.config
  fields : second.node.fields = first.node.fields
  values : second.node.values.keys = first.node.values.keys
  statements : second.node.statements.keys = first.node.statements.keys
  key : label (first.graph.keyOf first.id) = label (second.graph.keyOf second.id)

namespace Alike

variable {label : String → String} {first second : Site} (alike : Alike label first second)
include alike

theorem field (name : String) : second.field name = first.field name := by
  rw [Site.field, Node.field, alike.fields]
  rfl

theorem branchCount :
    Handlers.branchCount second.node = Handlers.branchCount first.node := by
  have contains : ∀ name, second.node.values.contains name = first.node.values.contains name := by
    intro name
    rw [Bool.eq_iff_iff, OrderedMap.contains_iff_mem_keys, OrderedMap.contains_iff_mem_keys,
      alike.values]
  simp only [Handlers.branchCount, contains, ← OrderedMap.length_keys, alike.values]

theorem invalidField {α : Type} (name : String) :
    Script.Alike label first.id second.id (first.invalidField name : Script α)
      (second.invalidField name) := by
  refine .fail ?_
  rw [PassError.relabel, PassError.relabel, alike.key, alike.field]

end Alike

end Site

namespace Handler

/-- A handler does the same at two nodes. -/
def Alike (label : String → String) (first second : Site) : Handler → Prop
  | expression generate =>
      Script.Alike label first.id second.id (generate first) (generate second)
  | statement generate =>
      Script.Alike label first.id second.id (generate first) (generate second)

@[simp] theorem alike_expression {label : String → String} {first second : Site}
    {generate : Site → Script Expression} : (expression generate).Alike label first second ↔
      Script.Alike label first.id second.id (generate first) (generate second) := Iff.rfl

@[simp] theorem alike_statement {label : String → String} {first second : Site}
    {generate : Site → Script String} : (statement generate).Alike label first second ↔
      Script.Alike label first.id second.id (generate first) (generate second) := Iff.rfl

end Handler

/-- Handlers that do the same at nodes with the same fields and slot names. -/
def HandlerTable.TreatsAlike (table : HandlerTable) : Prop :=
  ∀ kind handler, table.get? kind = some handler → ∀ label first second,
    Site.Alike label first second → handler.Alike label first second

namespace Handlers

variable {label : String → String} {first second : Site} (alike : Site.Alike label first second)
include alike

section

attribute [local simp] Site.value Site.valueOr Site.statements

theorem declareTimescale_alike :
    Script.Alike label first.id second.id (declareTimescale first) (declareTimescale second) := by
  unfold declareTimescale
  rw [alike.config]
  split
  next => exact .done ()
  next => exact .define _ _ fun _ => .done ()

theorem alwaysDelay_alike : alwaysDelay.Alike label first second :=
  (declareTimescale_alike alike).bind fun _ => by simp

theorem delay_alike : delay.Alike label first second :=
  (declareTimescale_alike alike).bind fun _ => by simp

omit alike in
theorem branches_alike (count n : Nat) :
    Script.Alike label first.id second.id (branches first count n) (branches second count n) := by
  induction count generalizing n with
  | zero => exact .done ""
  | succ count inductionHypothesis =>
      exact .value _ _ fun condition => .statements _ fun body =>
        (inductionHypothesis (n + 1)).bind fun more => .done _

theorem otherwise_alike :
    Script.Alike label first.id second.id (otherwise first) (otherwise second) := by
  have contains : second.node.statements.contains "ELSE" =
      first.node.statements.contains "ELSE" := by
    rw [Bool.eq_iff_iff, OrderedMap.contains_iff_mem_keys, OrderedMap.contains_iff_mem_keys,
      alike.statements]
  unfold otherwise
  rw [contains]
  split
  next => exact .statements _ fun body => .done _
  next => exact .done ""

theorem conditional_alike : conditional.Alike label first second := by
  unfold conditional Handler.Alike
  dsimp only
  rw [alike.branchCount]
  exact (branches_alike _ 0).bind fun chain =>
    (otherwise_alike alike).bind fun last => .done _

theorem binary_alike (choice : String → Option BinaryOperator) :
    (binary choice).Alike label first second := by
  unfold binary Handler.Alike
  dsimp only
  rw [alike.field]
  split
  next op chosen => simp [BinaryOperator.script]
  next => exact alike.invalidField operatorField

theorem logical_alike (and or : BinaryOperator) : (logical and or).Alike label first second := by
  unfold logical Handler.Alike
  dsimp only
  rw [alike.field]
  split
  next op chosen => simp [LogicalOperator.script]
  next => exact alike.invalidField operatorField

/-- A built-in handler does the same at nodes with the same fields and slot names. -/
theorem alike_of_mem_builtin {entry : String × Handler} (known : entry ∈ builtin) :
    entry.2.Alike label first second := by
  have field := alike.field
  have fields := alike.fields
  have time := alwaysDelay_alike alike
  have delayed := delay_alike alike
  have branches := conditional_alike alike
  have chosen := binary_alike alike
  have signs : logicSigns.Alike label first second := logical_alike alike _ _
  have words : logicWords.Alike label first second := logical_alike alike _ _
  revert entry
  simp [builtin, field, fields, time, delayed, branches, chosen, signs, words, truthValue, constant,
    number, variableRead, sizedValue, sizedStatement, negation, ternary, edge, bitSelect,
    concatenation, replication, moduleHead, testHead, fixedLine, port, gate, inverter, assignment,
    alwaysBlock, initialBlock, twoWayConditional, display, monitor]

end

end Handlers

theorem HandlerTable.builtin_treatsAlike : HandlerTable.builtin.TreatsAlike :=
  fun _ _ registered _ _ _ alike => Handlers.alike_of_mem_builtin alike (mem_builtin registered)

end BlockVerilog
