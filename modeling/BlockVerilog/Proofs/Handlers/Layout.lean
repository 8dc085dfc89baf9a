import BlockVerilog.Proofs.Graph.Uncommented
import BlockVerilog.Proofs.Handlers.Locality
import BlockVerilog.Proofs.Reading.Answer

/-!
What the built-in handlers make of bodies that are laid out differently.

The same handler at a node with and without comments asks the same questions. It never looks into a
body: from bodies with the same code it makes statements with the same code.
-/

namespace BlockVerilog

open Text

namespace Config

/-- The same settings without a layout. -/
def plain (config : Config) : Config := { config with indent := "", commentWrap := 0 }

end Config

namespace Site

/-- The same node without comments and layout. -/
def plain (site : Site) : Site :=
  ⟨site.graph.uncommented, site.config.plain, site.id, site.node.uncommented⟩

end Site

namespace Script

variable {α β : Type}

/-- Two scripts ask the same questions. Of the same solid texts and names, and of bodies with the
same code, they make related results. -/
inductive InStep (related : α → α → Prop) : Script α → Script α → Prop
  | done {first second : α} (results : related first second) :
      InStep related (.done first) (.done second)
  | fail (error : PassError) : InStep related (.fail error) (.fail error)
  | value (node : NodeId) (slot : String) (required : Precedence)
      {first second : Option String → Script α}
      (next : ∀ text, text.all solid = true → InStep related (first text) (second text)) :
      InStep related (.value node slot required first) (.value node slot required second)
  | statements (node : NodeId) (slot : String) {first second : String → Script α}
      (next : ∀ body other, SameBody body other → InStep related (first body) (second other)) :
      InStep related (.statements node slot first) (.statements node slot second)
  | variableName (id : String) {first second : String → Script α}
      (next : ∀ name, solid name = true → InStep related (first name) (second name)) :
      InStep related (.variableName id first) (.variableName id second)
  | freshName (wanted : String) {first second : String → Script α}
      (next : ∀ name, solid name = true → InStep related (first name) (second name)) :
      InStep related (.freshName wanted first) (.freshName wanted second)
  | define (key text : String) {first second : Bool → Script α}
      (next : ∀ isNew, InStep related (first isNew) (second isNew)) :
      InStep related (.define key text first) (.define key text second)

theorem InStep.bind {related : α → α → Prop} {relatedNext : β → β → Prop}
    {first second : Script α} {firstNext secondNext : α → Script β}
    (inStep : InStep related first second)
    (next : ∀ a b, related a b → InStep relatedNext (firstNext a) (secondNext b)) :
    InStep relatedNext (first >>= firstNext) (second >>= secondNext) := by
  induction inStep with
  | done results => exact next _ _ results
  | fail error => exact .fail error
  | value node slot required _ inductionHypothesis =>
      exact .value node slot required inductionHypothesis
  | statements node slot _ inductionHypothesis => exact .statements node slot inductionHypothesis
  | variableName id _ inductionHypothesis => exact .variableName id inductionHypothesis
  | freshName wanted _ inductionHypothesis => exact .freshName wanted inductionHypothesis
  | define key text _ inductionHypothesis => exact .define key text inductionHypothesis

end Script

namespace Site

open Script

variable {α : Type} {related : α → α → Prop} (site : Site)

@[simp] theorem field_plain (name : String) : site.plain.field name = site.field name := rfl

theorem valueOr_inStep (slot : String) (required : Precedence) {fallback : String}
    (visible : solid fallback = true) {first second : String → Script α}
    (next : ∀ text, solid text = true → InStep related (first text) (second text)) :
    InStep related (site.valueOr slot required fallback >>= first)
      (site.plain.valueOr slot required fallback >>= second) := by
  refine .value site.id slot required fun text answer => next _ ?_
  cases text with
  | none => exact visible
  | some text => exact answer

theorem value_inStep (slot : String) (required : Precedence)
    {first second : Option String → Script α}
    (next : ∀ text, text.all solid = true → InStep related (first text) (second text)) :
    InStep related (site.value slot required >>= first)
      (site.plain.value slot required >>= second) :=
  .value site.id slot required next

theorem statements_inStep (slot : String) {first second : String → Script α}
    (next : ∀ body other, SameBody body other → InStep related (first body) (second other)) :
    InStep related (site.statements slot >>= first) (site.plain.statements slot >>= second) :=
  .statements site.id slot next

theorem invalidField_inStep (field : String) :
    InStep related (site.invalidField field) (site.plain.invalidField field) := by
  have same : site.plain.invalidField field = (site.invalidField field : Script α) := by
    unfold invalidField plain
    rw [Graph.keyOf_uncommented]
    rfl
  rw [same]
  exact .fail _

end Site

/-- The same expression, which begins and ends visibly. -/
def SameExpression (first second : Expression) : Prop := first = second ∧ solid first.1 = true

namespace Handler

/-- A handler makes the same of a node with and without comments, however bodies are laid out. -/
def InStep : Handler → Prop
  | expression generate =>
      ∀ site, Script.InStep SameExpression (generate site) (generate site.plain)
  | statement generate => ∀ site, Script.InStep SameBlock (generate site) (generate site.plain)

end Handler

namespace Handlers

open Script

theorem inStep_expression {text : String} {level : Precedence} (visible : solid text = true) :
    InStep SameExpression (.done (text, level)) (.done (text, level)) := .done ⟨rfl, visible⟩

theorem inStep_block {text : String} (block : IsBlock text) :
    InStep SameBlock (.done text) (.done text) := .done block.refl

/-! ### Expressions -/

theorem isBlank_of_isAtomChar {c : Char} (atom : Reading.isAtomChar c = true) :
    isBlank c = false := by
  simp only [Reading.isAtomChar, Identifier.isWordChar, Bool.or_eq_true, decide_eq_true_eq] at atom
  rcases atom with ((alphanum | rfl) | rfl) | rfl
  · rw [Char.isAlphanum, Bool.or_eq_true, Identifier.isAlpha_iff_toNat,
      Char.isDigit_iff_toNat] at alphanum
    change _ ∨ (48 ≤ c.toNat ∧ c.toNat ≤ 57) at alphanum
    simp [isBlank, blankRanges]
    omega
  all_goals decide

theorem solid_of_isWord {text : String} (word : Reading.isWord text.toList = true) :
    solid text = true := by
  obtain ⟨nonempty, atoms, _⟩ := Reading.isWord_iff.mp word
  have first : opens text.toList = true := by
    cases spelled : text.toList with
    | nil => exact absurd spelled nonempty
    | cons c rest =>
        rw [spelled] at atoms
        simp [opens, isBlank_of_isAtomChar (atoms c List.mem_cons_self)]
  have last : closes text.toList = true := by
    cases ended : text.toList.getLast? with
    | none => exact absurd (List.getLast?_eq_none_iff.mp ended) nonempty
    | some c =>
        have atom := atoms c (List.mem_of_getLast? ended)
        simp [closes, ended, isBlank_of_isAtomChar atom]
  rw [solid, first, last]
  rfl

theorem constant_inStep {text : String} (visible : solid text = true) :
    (constant text).InStep := fun _ => inStep_expression visible

theorem truthValue_inStep : truthValue.InStep := fun site => by
  refine inStep_expression ?_
  split <;> decide

theorem solid_text_of_isFinite {x : Binary64} (isFinite : x.isFinite = true) :
    solid x.text = true := by
  have digits := solid_of_isWord (Reading.numeral x).spelled
  rw [Reading.text_of_isFinite isFinite]
  split
  next => exact solid_append (by decide) (closes_of_solid digits)
  next => rwa [String.empty_append]

theorem number_inStep : number.InStep := fun site => by
  suffices visible : solid (numberExpression (site.node.fields.get? "NUM")).1 = true from
    inStep_expression visible
  unfold numberExpression
  split
  next => decide
  next x given => exact solid_text_of_isFinite (Option.filter_eq_some_iff.mp given).2

theorem variableRead_inStep : variableRead.InStep := fun _ =>
  .variableName _ fun _ visible => inStep_expression visible

theorem sizedValue_inStep (radix : Radix) : (sizedValue radix).InStep := fun site =>
  .value site.id "number" .none fun _ _ =>
    inStep_expression (solid_of_isWord (Reading.isWord_sizedLiteral radix _))

theorem join_inStep (op : BinaryOperator) {left right : String} (first : solid left = true)
    (second : solid right = true) :
    InStep SameExpression (.done (op.join left right)) (.done (op.join left right)) := by
  refine inStep_expression (solid_append ?_ (closes_of_solid second))
  simp [opens_append, opens_of_solid first]

theorem binary_inStep (choice : String → Option BinaryOperator) : (binary choice).InStep := by
  unfold binary Handler.InStep
  intro site
  simp only [Site.field_plain]
  split
  next op _ =>
    exact site.valueOr_inStep _ _ (by decide) fun left first =>
      site.valueOr_inStep _ _ (by decide) fun right second => join_inStep op first second
  next => exact site.invalidField_inStep operatorField

theorem solid_operands {op : LogicalOperator} (neutral : solid op.neutral = true)
    {left right : Option String} (first : left.all solid = true)
    (second : right.all solid = true) :
    solid (op.operands left right).1 = true ∧ solid (op.operands left right).2 = true := by
  cases left <;> cases right
  case none.none => exact (by decide : solid "0" = true ∧ solid "0" = true)
  all_goals simp_all [LogicalOperator.operands]

theorem logical_inStep (and or : BinaryOperator) : (logical and or).InStep := by
  unfold logical Handler.InStep
  intro site
  simp only [Site.field_plain]
  split
  next op chosen =>
    have neutral : solid op.neutral = true := by
      unfold logical? at chosen
      split at chosen
      next => exact Option.some.inj chosen ▸ (by decide : solid "1" = true)
      next => exact Option.some.inj chosen ▸ (by decide : solid "0" = true)
      next => cases chosen
    refine site.value_inStep _ _ fun left first => site.value_inStep _ _ fun right second => ?_
    exact join_inStep op.operator (solid_operands neutral first second).1
      (solid_operands neutral first second).2
  next => exact site.invalidField_inStep operatorField

theorem negation_inStep {sign : String} (visible : opens sign.toList = true) :
    (negation sign).InStep := fun site =>
  site.valueOr_inStep _ _ (by decide) fun _ operand =>
    inStep_expression (solid_append visible (closes_of_solid operand))

theorem ternary_inStep : ternary.InStep := fun site =>
  site.valueOr_inStep _ _ (by decide) fun _ condition =>
    site.valueOr_inStep _ _ (by decide) fun _ _ =>
      site.valueOr_inStep _ _ (by decide) fun _ no =>
        inStep_expression (solid_append (by simp [opens_append, opens_of_solid condition])
          (closes_of_solid no))

theorem edge_inStep {keyword : String} (visible : opens keyword.toList = true) :
    (edge keyword).InStep := fun site =>
  site.valueOr_inStep _ _ (by decide) fun _ signal =>
    inStep_expression (solid_append (by simp [opens_append, visible]) (closes_of_solid signal))

theorem bitSelect_inStep : bitSelect.InStep := fun site =>
  site.valueOr_inStep _ _ (by decide) fun _ signal =>
    site.valueOr_inStep _ _ (by decide) fun _ _ =>
      inStep_expression (solid_append (by simp [opens_append, opens_of_solid signal]) (by decide))

theorem concatenation_inStep : concatenation.InStep := fun site =>
  site.valueOr_inStep _ _ (by decide) fun _ _ =>
    site.valueOr_inStep _ _ (by decide) fun _ _ =>
      inStep_expression (solid_append (by simp [opens_cons, isBlank, blankRanges]) (by decide))

theorem replication_inStep : replication.InStep := fun site =>
  site.valueOr_inStep _ _ (by decide) fun _ _ =>
    site.valueOr_inStep _ _ (by decide) fun _ _ =>
      inStep_expression (solid_append (by simp [opens_cons, isBlank, blankRanges]) (by decide))

/-! ### Statements without a body -/

theorem sizedStatement_inStep (radix : Radix) : (sizedStatement radix).InStep := fun site =>
  .value site.id "val" .none fun _ _ =>
    have visible := solid_of_isWord (Reading.isWord_sizedLiteral radix _)
    inStep_block (isBlock_of_closing (opens_of_solid visible) (by decide))

theorem moduleHead_inStep : moduleHead.InStep := fun _ =>
  inStep_block (isBlock_of_closing (by simp [opens_cons, isBlank, blankRanges]) (by decide))

theorem testHead_inStep : testHead.InStep := fun _ =>
  inStep_block (isBlock_of_closing (by simp [opens_cons, isBlank, blankRanges]) (by decide))

theorem fixedLine_inStep {text : String} (visible : solid text = true) :
    (fixedLine text).InStep := fun _ => inStep_block (isBlock_newline visible)

theorem port_inStep {keyword : String} (visible : opens keyword.toList = true) :
    (port keyword).InStep := fun site =>
  site.value_inStep _ _ fun _ _ =>
    inStep_block (isBlock_of_closing (by simp [opens_append, visible]) (by decide))

theorem gate_inStep {keyword : String} (visible : opens keyword.toList = true) :
    (gate keyword).InStep := fun site =>
  site.valueOr_inStep _ _ (by decide) fun _ _ =>
    site.valueOr_inStep _ _ (by decide) fun _ _ =>
      inStep_block (isBlock_of_closing (by simp [opens_append, visible]) (by decide))

theorem inverter_inStep : inverter.InStep := fun site =>
  site.valueOr_inStep _ _ (by decide) fun _ _ =>
    inStep_block (isBlock_of_closing (by simp [opens_cons, isBlank, blankRanges]) (by decide))

theorem assignment_inStep {lead sign : String} (visible : lead = "" ∨ opens lead.toList = true) :
    (assignment lead sign).InStep := fun site =>
  .variableName _ fun _ target =>
    site.valueOr_inStep _ _ (by decide) fun _ _ => by
      refine inStep_block (isBlock_of_closing ?_ (by decide))
      rcases visible with rfl | visible
      · simp [opens_append, opens_of_solid target]
      · simp [opens_append, visible]

theorem display_inStep : display.InStep := fun _ =>
  inStep_block (isBlock_of_closing (by simp [opens_cons, isBlank, blankRanges]) (by decide))

theorem monitor_inStep : monitor.InStep := fun _ =>
  inStep_block (isBlock_of_closing (by simp [opens_cons, isBlank, blankRanges]) (by decide))

/-! ### Statements around bodies -/

theorem declareTimescale_inStep {α : Type} {related : α → α → Prop} (site : Site)
    {first second : Script α} (next : InStep related first second) :
    InStep related (declareTimescale site >>= fun _ => first)
      (declareTimescale site.plain >>= fun _ => second) := by
  have same : declareTimescale site.plain = declareTimescale site := rfl
  rw [same]
  unfold declareTimescale
  split
  next => exact next
  next => exact .define _ _ fun _ => next

theorem alwaysBlock_inStep : alwaysBlock.InStep := fun site =>
  site.valueOr_inStep _ _ (by decide) fun _ _ => site.statements_inStep _ fun _ _ same =>
    .done (same.sameBlock (by simp [opens_cons, isBlank, blankRanges])
      (getLast?_toList_append (by decide) _) (by decide))

theorem alwaysDelay_inStep : alwaysDelay.InStep := fun site =>
  declareTimescale_inStep site <|
    site.valueOr_inStep _ _ (by decide) fun _ _ => site.statements_inStep _ fun _ _ same =>
      .done (same.sameBlock (by simp [opens_cons, isBlank, blankRanges])
        (getLast?_toList_append (by decide) _) (by decide))

theorem initialBlock_inStep {opening closing : String} (visible : closes closing.toList = true) :
    (initialBlock opening closing).InStep := fun site =>
  site.statements_inStep _ fun body other same => by
    have line : (closing ++ "\n").toList.getLast? = some '\n' ∧
        closes (closing ++ "\n").toList.dropLast = true := by
      simp [visible]
    have opened : opens ("initial " ++ opening ++ "\n").toList = true := by
      simp [opens_cons, isBlank, blankRanges]
    have block := same.sameBlock opened (getLast?_toList_append (by decide) _) line
    rw [← String.append_assoc, ← String.append_assoc] at block
    exact .done block

theorem delay_inStep : delay.InStep := fun site =>
  declareTimescale_inStep site <|
    site.valueOr_inStep _ _ (by decide) fun time visible =>
      site.statements_inStep _ fun body other same => by
        have block : ∀ {body : String}, IsBody body → IsBlock ("#" ++ time ++ "\n" ++ body) := by
          intro body whole
          refine ⟨by simp [opens_cons, isBlank, blankRanges], ?_⟩
          rcases whole with rfl | closed
          · exact ⟨("#" ++ time).toList, by simp, by
              rw [String.toList_append]
              exact closes_append (closes_of_solid visible) _⟩
          · rw [String.toList_append]
            exact closed.append _
        have alike := (Interchangeable.refl ("#" ++ time ++ "\n")).body
          (getLast?_toList_append (by decide) _) same
        exact .done (alike.sameBlock (block same.first) (block same.second))

theorem twoWayConditional_inStep : twoWayConditional.InStep := fun site =>
  site.valueOr_inStep _ _ (by decide) fun first _ =>
    site.statements_inStep _ fun yes yesOther sameYes =>
      site.valueOr_inStep _ _ (by decide) fun second _ =>
        site.statements_inStep _ fun no noOther sameNo => by
          have block : ∀ yes no : String, IsBlock ("if (" ++ first ++ ") begin\n" ++ yes ++
              "end\nelse if (" ++ second ++ ") begin\n" ++ no ++ "end\n") := fun yes no =>
            isBlock_of_closing (by simp [opens_cons, isBlank, blankRanges]) (by decide)
          have head := (Interchangeable.refl ("if (" ++ first ++ ") begin\n")).body
            (getLast?_toList_append (by decide) _) sameYes
          have between := ((head.append (.refl "end\nelse if (")).append (.refl second)).append
            (.refl ") begin\n")
          have whole := (between.body (getLast?_toList_append (by decide) _) sameNo).append
            (.refl "end\n")
          exact .done (whole.sameBlock (block yes no) (block yesOther noOther))

/-- The branches of a conditional from one on. The first branch of all opens the statement. -/
theorem branches_inStep (site : Site) (count n : Nat) :
    InStep (fun first second => SamePart first second ∧
        (n = 0 → 0 < count → opens first.toList = true ∧ opens second.toList = true))
      (branches site count n) (branches site.plain count n) := by
  induction count generalizing n with
  | zero => exact .done ⟨samePart_empty, fun _ none => absurd none (Nat.lt_irrefl 0)⟩
  | succ count inductionHypothesis =>
      refine site.valueOr_inStep _ _ (by decide) fun condition _ =>
        site.statements_inStep _ fun body other same =>
          (inductionHypothesis (n + 1)).bind fun more moreOther sameMore => .done ⟨?_, ?_⟩
      · exact (same.samePart (getLast?_toList_append (by decide) _) (by decide)).append sameMore.1
      · rintro rfl _
        simp [opens_cons, isBlank, blankRanges]

theorem otherwise_inStep (site : Site) :
    InStep SamePart (otherwise site) (otherwise site.plain) := by
  change InStep _ _ (if site.node.statements.contains "ELSE" then _ else _)
  unfold otherwise
  split
  next =>
    exact site.statements_inStep _ fun _ _ same => .done (same.samePart (by decide) (by decide))
  next => exact .done samePart_empty

theorem conditional_inStep : conditional.InStep := fun site =>
  (branches_inStep site (branchCount site.node) 0).bind fun _ _ chain =>
    (otherwise_inStep site).bind fun _ _ last => by
      have some_branch : 0 < branchCount site.node := by
        unfold branchCount
        omega
      obtain ⟨firstOpens, secondOpens⟩ := chain.2 rfl some_branch
      refine .done ((chain.1.append last).sameBlock ?_)
      rw [String.toList_append, String.toList_append]
      exact ⟨opens_append firstOpens _, opens_append secondOpens _⟩

/-- Every built-in handler makes the same code of bodies with the same code. -/
theorem inStep_of_mem_builtin {entry : String × Handler} (known : entry ∈ builtin) :
    entry.2.InStep := by
  have signs : logicSigns.InStep := logical_inStep _ _
  have words : logicWords.InStep := logical_inStep _ _
  have all : ∀ entry ∈ builtin, entry.2.InStep := by
    simp (disch := decide) only [builtin, List.forall_mem_cons, truthValue_inStep, constant_inStep,
      number_inStep, variableRead_inStep, sizedValue_inStep, sizedStatement_inStep, binary_inStep,
      signs, words, negation_inStep, ternary_inStep, edge_inStep, bitSelect_inStep,
      concatenation_inStep, replication_inStep, moduleHead_inStep, testHead_inStep,
      fixedLine_inStep, port_inStep, gate_inStep, inverter_inStep, assignment_inStep,
      alwaysBlock_inStep, alwaysDelay_inStep, initialBlock_inStep, conditional_inStep,
      twoWayConditional_inStep, delay_inStep, display_inStep, monitor_inStep, true_and]
    exact fun entry none => absurd none List.not_mem_nil
  exact all entry known

end Handlers

end BlockVerilog
