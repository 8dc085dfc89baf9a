import BlockVerilog.Handlers.Builtin
import BlockVerilog.Handlers.Template
import BlockVerilog.Proofs.OrderedMap

/-!
What the built-in handlers ask for, and what they refuse.

Each asks for slots of its own node only. The only error that one makes itself is an operator field
that holds none of the operators of its kind.
-/

namespace BlockVerilog

namespace Script

variable {α β : Type}

/-- A script makes this error itself, for some answers to its questions. -/
def Raises (error : PassError) : Script α → Prop
  | done _ => False
  | fail raised => raised = error
  | value _ _ _ next => ∃ text, (next text).Raises error
  | statements _ _ next => ∃ text, (next text).Raises error
  | variableName _ next => ∃ name, (next name).Raises error
  | freshName _ next => ∃ name, (next name).Raises error
  | define _ _ next => ∃ isNew, (next isNew).Raises error

/-- A script asks for slots of one node only, and makes no error itself. -/
def IsPlain (id : NodeId) : Script α → Prop
  | done _ => True
  | fail _ => False
  | value node _ _ next => node = id ∧ ∀ text, (next text).IsPlain id
  | statements node _ next => node = id ∧ ∀ text, (next text).IsPlain id
  | variableName _ next => ∀ name, (next name).IsPlain id
  | freshName _ next => ∀ name, (next name).IsPlain id
  | define _ _ next => ∀ isNew, (next isNew).IsPlain id

theorem IsPlain.isLocal {id : NodeId} {script : Script α} (plain : script.IsPlain id) :
    script.IsLocal id := by
  induction script with
  | done a => trivial
  | fail e => trivial
  | value node slot required next inductionHypothesis
  | statements node slot next inductionHypothesis =>
      exact ⟨plain.1, fun text => inductionHypothesis text (plain.2 text)⟩
  | variableName id next inductionHypothesis
  | freshName wanted next inductionHypothesis
  | define key text next inductionHypothesis =>
      exact fun answer => inductionHypothesis answer (plain answer)

theorem IsPlain.not_raises {id : NodeId} {script : Script α} (plain : script.IsPlain id)
    (error : PassError) : ¬ script.Raises error := by
  induction script with
  | done a => exact fun raised => raised
  | fail e => exact fun _ => plain
  | value node slot required next inductionHypothesis
  | statements node slot next inductionHypothesis =>
      exact fun ⟨text, raised⟩ => inductionHypothesis text (plain.2 text) raised
  | variableName id next inductionHypothesis
  | freshName wanted next inductionHypothesis
  | define key text next inductionHypothesis =>
      exact fun ⟨answer, raised⟩ => inductionHypothesis answer (plain answer) raised

theorem isPlain_bind {id : NodeId} {script : Script α} {f : α → Script β}
    (first : script.IsPlain id) (second : ∀ a, (f a).IsPlain id) :
    (script >>= f).IsPlain id := by
  induction script with
  | done a => exact second a
  | fail e => exact first.elim
  | value node slot required next inductionHypothesis
  | statements node slot next inductionHypothesis =>
      exact ⟨first.1, fun text => inductionHypothesis text (first.2 text)⟩
  | variableName id next inductionHypothesis
  | freshName wanted next inductionHypothesis
  | define key text next inductionHypothesis =>
      exact fun answer => inductionHypothesis answer (first answer)

end Script

namespace Handler

/-- A handler makes this error itself at some node. -/
def Raises (error : PassError) (site : Site) : Handler → Prop
  | expression generate => (generate site).Raises error
  | statement generate => (generate site).Raises error

/-- A handler asks for slots of its own node only, and makes no error itself. -/
def IsPlain : Handler → Prop
  | expression generate => ∀ site, (generate site).IsPlain site.id
  | statement generate => ∀ site, (generate site).IsPlain site.id

@[simp] theorem isPlain_expression {generate : Site → Script Expression} :
    (expression generate).IsPlain ↔ ∀ site, (generate site).IsPlain site.id := Iff.rfl

@[simp] theorem isPlain_statement {generate : Site → Script String} :
    (statement generate).IsPlain ↔ ∀ site, (generate site).IsPlain site.id := Iff.rfl

theorem IsPlain.isLocal {handler : Handler} (plain : handler.IsPlain) : handler.IsLocal := by
  cases handler with
  | expression generate => exact fun site => (plain site).isLocal
  | statement generate => exact fun site => (plain site).isLocal

theorem IsPlain.not_raises {handler : Handler} (plain : handler.IsPlain) (error : PassError)
    (site : Site) : ¬ handler.Raises error site := by
  cases handler with
  | expression generate => exact (plain site).not_raises error
  | statement generate => exact (plain site).not_raises error

end Handler

namespace HandlerTable

/-- A table of handlers that reach other nodes only through the slots of their own. -/
def IsLocal (table : HandlerTable) : Prop :=
  ∀ kind handler, table.get? kind = some handler → handler.IsLocal

end HandlerTable

namespace Handlers

/-- The kinds whose nodes choose an operator, with the choices. -/
def operatorTexts : List (String × List String) :=
  [("logic_compare", ["EQ", "NEQ", "LT", "LTE", "GT", "GTE", "CASE_EQ", "CASE_NEQ"]),
    ("logic_operation", ["AND", "OR"]),
    ("logic_operation_2", ["AND", "OR"]),
    ("logic_operation3", ["And", "Or", "Xor", "Xnor"]),
    ("math_arithmetic",
      ["ADD", "MINUS", "MULTIPLY", "DIVIDE", "MODULO", "SHIFT_LEFT", "SHIFT_RIGHT"])]

/-- The handlers of the kinds that choose an operator. -/
def operatorHandlers : List (String × Handler) :=
  [("logic_compare", binary comparison?), ("logic_operation", logicSigns),
    ("logic_operation_2", logicWords), ("logic_operation3", binary bitwise?),
    ("math_arithmetic", binary arithmetic?)]

section

attribute [local simp] Script.IsPlain Site.value Site.valueOr Site.statements

theorem declareTimescale_isPlain (site : Site) (id : NodeId) :
    (declareTimescale site).IsPlain id := by
  unfold declareTimescale
  split <;> simp

theorem alwaysDelay_isPlain : alwaysDelay.IsPlain := fun site =>
  Script.isPlain_bind (declareTimescale_isPlain site site.id) fun _ => by simp

theorem delay_isPlain : delay.IsPlain := fun site =>
  Script.isPlain_bind (declareTimescale_isPlain site site.id) fun _ => by simp

theorem branches_isPlain (site : Site) (count n : Nat) :
    (branches site count n).IsPlain site.id := by
  induction count generalizing n with
  | zero => simp [branches]
  | succ count inductionHypothesis =>
      simp only [branches, Site.valueOr, Site.statements, Script.value_bind, Script.done_bind,
        Script.statements_bind]
      exact ⟨rfl, fun _ => ⟨rfl, fun _ =>
        Script.isPlain_bind (inductionHypothesis (n + 1)) fun _ => trivial⟩⟩

theorem otherwise_isPlain (site : Site) : (otherwise site).IsPlain site.id := by
  unfold otherwise
  split <;> simp

theorem conditional_isPlain : conditional.IsPlain := fun site =>
  Script.isPlain_bind (branches_isPlain site _ _) fun _ =>
    Script.isPlain_bind (otherwise_isPlain site) fun _ => trivial

/-- Only the choice of an operator can be refused. -/
theorem isPlain_or_operator {entry : String × Handler} (known : entry ∈ builtin) :
    entry.2.IsPlain ∨ entry ∈ operatorHandlers := by
  revert entry
  simp [builtin, operatorHandlers, alwaysDelay_isPlain, delay_isPlain, conditional_isPlain,
    truthValue, constant, number, variableRead, sizedValue, sizedStatement, negation, ternary,
    edge, bitSelect, concatenation, replication, moduleHead, testHead, fixedLine, port, gate,
    inverter, assignment, alwaysBlock, initialBlock, twoWayConditional, display, monitor]

end

theorem binary_isLocal (choice : String → Option BinaryOperator) : (binary choice).IsLocal := by
  intro site
  dsimp only
  split
  next => simp [BinaryOperator.script, Site.valueOr, Script.IsLocal]
  next => trivial

theorem logical_isLocal (and or : BinaryOperator) : (logical and or).IsLocal := by
  intro site
  dsimp only
  split
  next => simp [LogicalOperator.script, Site.value, Script.IsLocal]
  next => trivial

/-- A built-in handler reaches other nodes only through the slots of its own. -/
theorem isLocal_of_mem_builtin {entry : String × Handler} (known : entry ∈ builtin) :
    entry.2.IsLocal := by
  rcases isPlain_or_operator known with plain | operator
  · exact plain.isLocal
  · simp only [operatorHandlers, List.mem_cons, List.not_mem_nil, or_false] at operator
    rcases operator with rfl | rfl | rfl | rfl | rfl
    · exact binary_isLocal _
    · exact logical_isLocal _ _
    · exact logical_isLocal _ _
    · exact binary_isLocal _
    · exact binary_isLocal _

theorem binary_raises {choice : String → Option BinaryOperator} {error : PassError} {site : Site}
    (raised : (binary choice).Raises error site) :
    choice (site.field operatorField) = none ∧
      error = .invalidField (site.graph.keyOf site.id) operatorField
        (site.field operatorField) := by
  simp only [binary, Handler.Raises] at raised
  split at raised
  next op chosen => simp [BinaryOperator.script, Site.valueOr, Script.Raises] at raised
  next refused => exact ⟨refused, raised.symm⟩

theorem logical_raises {and or : BinaryOperator} {error : PassError} {site : Site}
    (raised : (logical and or).Raises error site) :
    logical? and or (site.field operatorField) = none ∧
      error = .invalidField (site.graph.keyOf site.id) operatorField
        (site.field operatorField) := by
  simp only [logical, Handler.Raises] at raised
  split at raised
  next op chosen => simp [LogicalOperator.script, Site.value, Script.Raises] at raised
  next refused => exact ⟨refused, raised.symm⟩

theorem comparison?_isSome {text : String}
    (known : text ∈ ["EQ", "NEQ", "LT", "LTE", "GT", "GTE", "CASE_EQ", "CASE_NEQ"]) :
    (comparison? text).isSome := by
  revert text
  decide

theorem bitwise?_isSome {text : String} (known : text ∈ ["And", "Or", "Xor", "Xnor"]) :
    (bitwise? text).isSome := by
  revert text
  decide

theorem arithmetic?_isSome {text : String}
    (known : text ∈
      ["ADD", "MINUS", "MULTIPLY", "DIVIDE", "MODULO", "SHIFT_LEFT", "SHIFT_RIGHT"]) :
    (arithmetic? text).isSome := by
  revert text
  decide

theorem logical?_isSome {and or : BinaryOperator} {text : String} (known : text ∈ ["AND", "OR"]) :
    (logical? and or text).isSome := by
  simp only [List.mem_cons, List.not_mem_nil, or_false] at known
  rcases known with rfl | rfl <;> rfl

theorem not_mem_of_eq_none {Choice : Type} {choice : String → Option Choice} {texts : List String}
    {text : String} (known : text ∈ texts → (choice text).isSome) (refused : choice text = none) :
    text ∉ texts := fun found => by
  simpa [refused] using known found

theorem raises_of_mem_builtin {entry : String × Handler} (known : entry ∈ builtin)
    {error : PassError} {site : Site} (raised : entry.2.Raises error site) :
    ∃ texts, (entry.1, texts) ∈ operatorTexts ∧ site.field operatorField ∉ texts ∧
      error =
        .invalidField (site.graph.keyOf site.id) operatorField (site.field operatorField) := by
  rcases isPlain_or_operator known with plain | operator
  · exact absurd raised (plain.not_raises error site)
  · simp only [operatorHandlers, List.mem_cons, List.not_mem_nil, or_false] at operator
    rcases operator with rfl | rfl | rfl | rfl | rfl
    · obtain ⟨refused, made⟩ := binary_raises raised
      exact ⟨_, by simp [operatorTexts], not_mem_of_eq_none comparison?_isSome refused, made⟩
    · obtain ⟨refused, made⟩ := logical_raises raised
      exact ⟨_, by simp [operatorTexts], not_mem_of_eq_none logical?_isSome refused, made⟩
    · obtain ⟨refused, made⟩ := logical_raises raised
      exact ⟨_, by simp [operatorTexts], not_mem_of_eq_none logical?_isSome refused, made⟩
    · obtain ⟨refused, made⟩ := binary_raises raised
      exact ⟨_, by simp [operatorTexts], not_mem_of_eq_none bitwise?_isSome refused, made⟩
    · obtain ⟨refused, made⟩ := binary_raises raised
      exact ⟨_, by simp [operatorTexts], not_mem_of_eq_none arithmetic?_isSome refused, made⟩

end Handlers

namespace Handlers.Part

theorem script_isLocal (site : Site) (part : Part) : (part.script site).IsLocal site.id := by
  cases part <;> simp [script, Site.valueOr, Site.statements, Site.invalidField, Script.IsLocal]

theorem scriptAll_isLocal (site : Site) (parts : List Part) :
    (scriptAll site parts).IsLocal site.id := by
  induction parts with
  | nil => trivial
  | cons part rest inductionHypothesis =>
      exact Script.isLocal_bind (script_isLocal site part) fun _ =>
        Script.isLocal_bind inductionHypothesis fun _ => trivial

/-- Handlers made of parts reach other nodes only through the slots of their own. -/
theorem expression_isLocal (level : Precedence) (parts : List Part) :
    (Part.expression level parts).IsLocal := fun site =>
  Script.isLocal_bind (scriptAll_isLocal site parts) fun _ => trivial

theorem statement_isLocal (parts : List Part) : (Part.statement parts).IsLocal := fun site =>
  scriptAll_isLocal site parts

end Handlers.Part

namespace HandlerTable

theorem mem_builtin {kind : String} {handler : Handler}
    (registered : HandlerTable.builtin.get? kind = some handler) :
    (kind, handler) ∈ Handlers.builtin :=
  OrderedMap.mem_of_get?_ofList registered

theorem nodup_builtin : (Handlers.builtin.map Prod.fst).Nodup := by decide +kernel

theorem get?_builtin {kind : String} {handler : Handler}
    (known : (kind, handler) ∈ Handlers.builtin) :
    HandlerTable.builtin.get? kind = some handler :=
  OrderedMap.get?_ofList_of_mem nodup_builtin known

theorem builtin_isLocal : HandlerTable.builtin.IsLocal := fun _ _ registered =>
  Handlers.isLocal_of_mem_builtin (mem_builtin registered)

/-- Local handlers may be added to a table, or take the place of others. -/
theorem IsLocal.insertAll {table : HandlerTable} (isLocal : table.IsLocal)
    {more : List (String × Handler)} (each : ∀ entry ∈ more, entry.2.IsLocal) :
    IsLocal (OrderedMap.insertAll table more) := by
  intro kind handler registered
  rcases OrderedMap.mem_or_get?_of_insertAll registered with added | before
  · exact each _ added
  · exact isLocal _ _ before

end HandlerTable

end BlockVerilog
