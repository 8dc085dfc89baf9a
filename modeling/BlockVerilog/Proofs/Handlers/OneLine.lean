import BlockVerilog.Proofs.Handlers.ReadOnly

/-!
What the built-in handlers make of texts that stay on one line.

Expressions are put together from such texts without a newline between them. Statements end each of
their lines themselves, or with a body of whole lines.
-/

namespace BlockVerilog

namespace Text

/-- A text without a line break. -/
def OneLine (text : String) : Prop := '\n' ∉ text.toList

instance (text : String) : Decidable (OneLine text) :=
  inferInstanceAs (Decidable ('\n' ∉ text.toList))

@[simp] theorem oneLine_append {first second : String} :
    OneLine (first ++ second) ↔ OneLine first ∧ OneLine second := by
  simp [OneLine]

theorem oneLine_of_isWord {text : String} (word : Reading.isWord text.toList = true) :
    OneLine text := by
  intro newline
  have atom := (Reading.isWord_iff.mp word).2.1 _ newline
  exact absurd (Handlers.isBlank_of_isAtomChar atom) (by decide)

/-- A visible text on one line. -/
structure IsInline (text : String) : Prop where
  visible : solid text = true
  oneLine : OneLine text

theorem isInline_of_isLegal {name : String} (legal : Names.IsLegal name) : IsInline name where
  visible := Handlers.solid_of_isWord (Reading.isWord_of_isLegal legal)
  oneLine := oneLine_of_isWord (Reading.isWord_of_isLegal legal)

theorem oneLine_parenthesize {text : String} (one : OneLine text) (child required : Precedence) :
    OneLine (parenthesize text child required) := by
  have opening : OneLine "(" := by decide
  have closing : OneLine ")" := by decide
  unfold parenthesize
  split
  next => exact oneLine_append.mpr ⟨oneLine_append.mpr ⟨opening, one⟩, closing⟩
  next => exact one

end Text

open Text

namespace Script

variable {α β : Type}

/-- Of texts and names with `part`, and of bodies, a script makes results with `post`. -/
def MakesFrom (part : String → Prop) (post : α → Prop) : Script α → Prop
  | done a => post a
  | fail _ => True
  | value _ _ _ next => ∀ text, (∀ given ∈ text, part given) → (next text).MakesFrom part post
  | statements _ _ next => ∀ body, IsBody body → (next body).MakesFrom part post
  | variableName _ next => ∀ name, part name → (next name).MakesFrom part post
  | freshName _ next => ∀ name, part name → (next name).MakesFrom part post
  | define _ _ next => ∀ isNew, (next isNew).MakesFrom part post

theorem MakesFrom.bind {part : String → Prop} {post : α → Prop} {postNext : β → Prop}
    {script : Script α} {f : α → Script β} (makes : script.MakesFrom part post)
    (next : ∀ a, post a → (f a).MakesFrom part postNext) :
    (script >>= f).MakesFrom part postNext := by
  induction script with
  | done a => exact next a makes
  | fail e => trivial
  | value node slot required more inductionHypothesis =>
      exact fun text given => inductionHypothesis text (makes text given)
  | statements node slot more inductionHypothesis =>
      exact fun body whole => inductionHypothesis body (makes body whole)
  | variableName id more inductionHypothesis
  | freshName wanted more inductionHypothesis =>
      exact fun name given => inductionHypothesis name (makes name given)
  | define key text more inductionHypothesis =>
      exact fun isNew => inductionHypothesis isNew (makes isNew)

theorem MakesFrom.mono {part : String → Prop} {post weaker : α → Prop} {script : Script α}
    (makes : script.MakesFrom part post) (implies : ∀ a, post a → weaker a) :
    script.MakesFrom part weaker := by
  induction script with
  | done a => exact implies a makes
  | fail e => trivial
  | value node slot required more inductionHypothesis =>
      exact fun text given => inductionHypothesis text (makes text given)
  | statements node slot more inductionHypothesis =>
      exact fun body whole => inductionHypothesis body (makes body whole)
  | variableName id more inductionHypothesis
  | freshName wanted more inductionHypothesis =>
      exact fun name given => inductionHypothesis name (makes name given)
  | define key text more inductionHypothesis =>
      exact fun isNew => inductionHypothesis isNew (makes isNew)

theorem makesFrom_true (part : String → Prop) (script : Script α) :
    script.MakesFrom part fun _ => True := by
  induction script with
  | done a => trivial
  | fail e => trivial
  | value node slot required more inductionHypothesis =>
      exact fun text _ => inductionHypothesis text
  | statements node slot more inductionHypothesis => exact fun body _ => inductionHypothesis body
  | variableName id more inductionHypothesis
  | freshName wanted more inductionHypothesis => exact fun name _ => inductionHypothesis name
  | define key text more inductionHypothesis => exact inductionHypothesis

/-- What a script makes of visible texts and of texts on one line, it makes of inline ones. -/
theorem Makes.inline {post postLine : α → Prop} {script : Script α} (makes : script.Makes post)
    (line : script.MakesFrom OneLine postLine) :
    script.MakesFrom IsInline fun a => post a ∧ postLine a := by
  induction script with
  | done a => exact ⟨makes, line⟩
  | fail e => trivial
  | value node slot required more inductionHypothesis =>
      intro text given
      have visible : text.all solid = true := by
        cases text with
        | none => rfl
        | some text => exact (given text rfl).visible
      exact inductionHypothesis text (makes text visible)
        (line text fun given' listed => (given given' listed).oneLine)
  | statements node slot more inductionHypothesis =>
      exact fun body whole => inductionHypothesis body (makes body whole) (line body whole)
  | variableName id more inductionHypothesis
  | freshName wanted more inductionHypothesis =>
      exact fun name given =>
        inductionHypothesis name (makes name given.visible) (line name given.oneLine)
  | define key text more inductionHypothesis =>
      exact fun isNew => inductionHypothesis isNew (makes isNew) (line isNew)

end Script

namespace Handler

/-- The expressions of a handler stay on one line. -/
def StaysOnLine : Handler → Prop
  | expression generate => ∀ site, (generate site).MakesFrom OneLine fun given => OneLine given.1
  | statement _ => True

@[simp] theorem staysOnLine_expression {generate : Site → Script Expression} :
    (expression generate).StaysOnLine ↔
      ∀ site, (generate site).MakesFrom OneLine fun given => OneLine given.1 := Iff.rfl

@[simp] theorem staysOnLine_statement {generate : Site → Script String} :
    (statement generate).StaysOnLine := trivial

/-- A handler makes inline expressions, or statements that are blocks. -/
def MakesLines : Handler → Prop
  | expression generate => ∀ site, (generate site).MakesFrom IsInline fun given => IsInline given.1
  | statement generate => ∀ site, (generate site).MakesFrom IsInline IsBlock

end Handler

namespace Handlers

open Script

section

variable {site : Site}

theorem valueOr_makesFrom (slot : String) (required : Precedence) {fallback : String}
    (one : OneLine fallback) : (site.valueOr slot required fallback).MakesFrom OneLine OneLine := by
  intro text given
  cases text with
  | none => exact one
  | some text => exact given text rfl

theorem join_oneLine {op : BinaryOperator} (one : OneLine op.text) {left right : String}
    (first : OneLine left) (second : OneLine right) : OneLine (op.join left right).1 := by
  have blank : OneLine " " := by decide
  simp only [BinaryOperator.join, oneLine_append]
  exact ⟨⟨⟨⟨first, blank⟩, one⟩, blank⟩, second⟩

theorem binary_makesFrom {op : BinaryOperator} (one : OneLine op.text) :
    (op.script site).MakesFrom OneLine fun given => OneLine given.1 := by
  apply (valueOr_makesFrom "A" op.level (by decide)).bind
  intro left first
  apply (valueOr_makesFrom "B" op.right (by decide)).bind
  intro right second
  exact join_oneLine one first second

theorem logical_makesFrom {op : LogicalOperator} (one : OneLine op.operator.text)
    (neutral : OneLine op.neutral) :
    (op.script site).MakesFrom OneLine fun given => OneLine given.1 := by
  intro left first right second
  have zero : OneLine "0" := by decide
  have operands : OneLine (op.operands left right).1 ∧ OneLine (op.operands left right).2 := by
    cases left <;> cases right
    case none.none => exact ⟨zero, zero⟩
    all_goals simp_all [LogicalOperator.operands]
  exact join_oneLine one operands.1 operands.2

end

/-- The operators that a field chooses from stand on one line. -/
def ChoosesOneLine (choice : String → Option BinaryOperator) : Prop :=
  ∀ name op, choice name = some op → OneLine op.text

theorem comparison?_oneLine : ChoosesOneLine comparison? := by
  intro name op chosen
  unfold comparison? at chosen
  split at chosen
  all_goals cases chosen
  all_goals decide

theorem bitwise?_oneLine : ChoosesOneLine bitwise? := by
  intro name op chosen
  unfold bitwise? at chosen
  split at chosen
  all_goals cases chosen
  all_goals decide

theorem arithmetic?_oneLine : ChoosesOneLine arithmetic? := by
  intro name op chosen
  unfold arithmetic? at chosen
  split at chosen
  all_goals cases chosen
  all_goals decide

theorem binary_staysOnLine {choice : String → Option BinaryOperator}
    (one : ChoosesOneLine choice) : (binary choice).StaysOnLine := by
  intro site
  dsimp only
  split
  next op chosen => exact binary_makesFrom (one _ op chosen)
  next => trivial

theorem logical_staysOnLine {and or : BinaryOperator} (first : OneLine and.text)
    (second : OneLine or.text) : (logical and or).StaysOnLine := by
  intro site
  dsimp only
  split
  next op chosen =>
    unfold logical? at chosen
    split at chosen
    next => exact Option.some.inj chosen ▸ logical_makesFrom first (by decide : OneLine "1")
    next => exact Option.some.inj chosen ▸ logical_makesFrom second (by decide : OneLine "0")
    next => cases chosen
  next => trivial

theorem constant_staysOnLine {text : String} (one : OneLine text) : (constant text).StaysOnLine :=
  fun _ => one

theorem truthValue_staysOnLine : truthValue.StaysOnLine := by
  intro site
  change OneLine (if site.field "BOOL" = "TRUE" then "1" else "0")
  split
  next => decide
  next => decide

theorem number_staysOnLine : number.StaysOnLine := by
  intro site
  change OneLine (numberExpression (site.node.fields.get? "NUM")).1
  unfold numberExpression
  split
  next => decide
  next x given =>
    have isFinite : x.isFinite = true := (Option.filter_eq_some_iff.mp given).2
    have sign : OneLine (if x.isNegative then "-" else "") := by split <;> decide
    rw [Reading.text_of_isFinite isFinite]
    exact oneLine_append.mpr ⟨sign, oneLine_of_isWord (Reading.numeral x).spelled⟩

theorem variableRead_staysOnLine : variableRead.StaysOnLine := fun _ _ one => one

theorem sizedValue_staysOnLine (radix : Radix) : (sizedValue radix).StaysOnLine := fun _ _ _ =>
  oneLine_of_isWord (Reading.isWord_sizedLiteral radix _)

theorem negation_staysOnLine {sign : String} (one : OneLine sign) :
    (negation sign).StaysOnLine := by
  intro site
  apply (valueOr_makesFrom "BOOL" _ (by decide)).bind
  intro operand oneOperand
  exact oneLine_append.mpr ⟨one, oneOperand⟩

theorem ternary_staysOnLine : ternary.StaysOnLine := by
  intro site
  apply (valueOr_makesFrom "IF" _ (by decide)).bind
  intro condition first
  apply (valueOr_makesFrom "THEN" _ (by decide)).bind
  intro yes second
  apply (valueOr_makesFrom "ELSE" _ (by decide)).bind
  intro no third
  have asks : OneLine " ? " := by decide
  have divides : OneLine " : " := by decide
  change OneLine (condition ++ " ? " ++ yes ++ " : " ++ no)
  simp only [oneLine_append]
  exact ⟨⟨⟨⟨first, asks⟩, second⟩, divides⟩, third⟩

theorem edge_staysOnLine {keyword : String} (one : OneLine keyword) :
    (edge keyword).StaysOnLine := by
  intro site
  apply (valueOr_makesFrom "NAME" _ (by decide)).bind
  intro signal oneSignal
  have blank : OneLine " " := by decide
  change OneLine (keyword ++ " " ++ signal)
  simp only [oneLine_append]
  exact ⟨⟨one, blank⟩, oneSignal⟩

theorem bitSelect_staysOnLine : bitSelect.StaysOnLine := by
  intro site
  apply (valueOr_makesFrom "NAME" _ (by decide)).bind
  intro signal first
  apply (valueOr_makesFrom "number" _ (by decide)).bind
  intro index second
  have opening : OneLine "[" := by decide
  have closing : OneLine "]" := by decide
  change OneLine (signal ++ "[" ++ index ++ "]")
  simp only [oneLine_append]
  exact ⟨⟨⟨first, opening⟩, second⟩, closing⟩

theorem concatenation_staysOnLine : concatenation.StaysOnLine := by
  intro site
  apply (valueOr_makesFrom "arg1" _ (by decide)).bind
  intro front first
  apply (valueOr_makesFrom "arg2" _ (by decide)).bind
  intro back second
  have opening : OneLine "\x7b" := by decide
  have divides : OneLine ", " := by decide
  have closing : OneLine "\x7d" := by decide
  change OneLine ("\x7b" ++ front ++ ", " ++ back ++ "\x7d")
  simp only [oneLine_append]
  exact ⟨⟨⟨⟨opening, first⟩, divides⟩, second⟩, closing⟩

theorem replication_staysOnLine : replication.StaysOnLine := by
  intro site
  apply (valueOr_makesFrom "count" _ (by decide)).bind
  intro count first
  apply (valueOr_makesFrom "value" _ (by decide)).bind
  intro value second
  have opening : OneLine "\x7b" := by decide
  have closing : OneLine "\x7d\x7d" := by decide
  change OneLine ("\x7b" ++ count ++ "\x7b" ++ value ++ "\x7d\x7d")
  simp only [oneLine_append]
  exact ⟨⟨⟨⟨opening, first⟩, opening⟩, second⟩, closing⟩

theorem staysOnLine_of_mem_builtin {entry : String × Handler} (registered : entry ∈ builtin) :
    entry.2.StaysOnLine := by
  have constants : ∀ text ∈ ["X", "Z", "1", "0"], (constant text).StaysOnLine := by
    intro text listed
    apply constant_staysOnLine
    revert text
    decide
  have negations : ∀ sign ∈ ["!", "~"], (negation sign).StaysOnLine := by
    intro sign listed
    apply negation_staysOnLine
    revert sign
    decide
  have edges : ∀ keyword ∈ ["posedge", "negedge"], (edge keyword).StaysOnLine := by
    intro keyword listed
    apply edge_staysOnLine
    revert keyword
    decide
  have signs : logicSigns.StaysOnLine := logical_staysOnLine (by decide) (by decide)
  have words : logicWords.StaysOnLine := logical_staysOnLine (by decide) (by decide)
  revert entry
  simp [builtin, constants, negations, edges, signs, words, truthValue_staysOnLine,
    number_staysOnLine, variableRead_staysOnLine, sizedValue_staysOnLine,
    binary_staysOnLine comparison?_oneLine, binary_staysOnLine bitwise?_oneLine,
    binary_staysOnLine arithmetic?_oneLine, ternary_staysOnLine, bitSelect_staysOnLine,
    concatenation_staysOnLine, replication_staysOnLine, sizedStatement, moduleHead, testHead,
    fixedLine, port, gate, inverter, assignment, alwaysBlock, alwaysDelay, initialBlock,
    conditional, twoWayConditional, delay, display, monitor]

theorem makesLines_of_mem_builtin {kind : String} {handler : Handler}
    (registered : (kind, handler) ∈ builtin) : handler.MakesLines := by
  have blocks := (inStep_of_mem_builtin registered).makesBlocks
  have lines := staysOnLine_of_mem_builtin registered
  cases handler with
  | expression generate =>
      intro site
      apply ((blocks site).inline (lines site)).mono
      rintro given ⟨visible, one⟩
      exact ⟨visible, one⟩
  | statement generate =>
      intro site
      apply ((blocks site).inline (makesFrom_true OneLine (generate site))).mono
      rintro text ⟨block, _⟩
      exact block

end Handlers

/-- Each of its handlers makes inline expressions, or statements that are blocks. -/
def HandlerTable.MakesLines (table : HandlerTable) : Prop :=
  ∀ kind handler, table.get? kind = some handler → handler.MakesLines

theorem HandlerTable.builtin_makesLines : HandlerTable.builtin.MakesLines := fun _ _ registered =>
  Handlers.makesLines_of_mem_builtin (mem_builtin registered)

end BlockVerilog
