import BlockVerilog.Proofs.Handlers.Locality
import BlockVerilog.Proofs.Reading.Form

/-!
Built-in handlers print the trees of their nodes.

`answer` runs a script on given texts for its slots and given names. From the printed trees in its
slots, the handler of an expression makes the printed tree of its form.
-/

namespace BlockVerilog

namespace Script

variable {α : Type}

/-- The result of a script that asks for expressions and names only. -/
def answer (values : String → Precedence → Option String) (names : String → String) :
    Script α → Option α
  | done a => some a
  | fail _ => none
  | value _ slot required next => (next (values slot required)).answer values names
  | statements _ _ _ => none
  | variableName id next => (next (names id)).answer values names
  | freshName _ _ => none
  | define _ _ _ => none

end Script

namespace Reading

open Handlers

namespace Tree

/-- The text of a tree with its level. -/
def expression (tree : Tree) : Expression := (tree.text, tree.level)

theorem within_atom (word : Word) (required : Precedence) :
    (atom word).within required = word.text := (within_of_le (atomic_le required)).1

end Tree

variable {names : String → Word} {slots : String → Option Tree}

/-- The printed trees in the slots of a node. -/
def printed (slots : String → Option Tree) (slot : String) (required : Precedence) :
    Option String :=
  (slots slot).map fun tree => tree.within required

theorem getD_printed (slot : String) (required : Precedence) (missing : Word) :
    (printed slots slot required).getD missing.text =
      (Form.operand slots slot missing).within required := by
  unfold printed Form.operand
  cases slots slot with
  | none => exact (Tree.within_atom missing required).symm
  | some tree => rfl

/-- A handler prints a form: from printed operands it makes the printed tree. -/
def Prints (generate : Site → Script Expression) (site : Site) (form : Form) : Prop :=
  ∀ names slots, (generate site).answer (printed slots) (fun id => (names id).text) =
    some (form.tree names slots).expression

/-- The handler of an expression that prints a form at a node. -/
def Handles (handler : Handler) (site : Site) (form : Form) : Prop :=
  ∃ generate, handler = .expression generate ∧ Prints generate site form

theorem handles_of_prints {generate : Site → Script Expression} {site : Site} {form : Form}
    (prints : Prints generate site form) : Handles (.expression generate) site form :=
  ⟨generate, rfl, prints⟩

theorem printed_ne_none {slot : String} {required : Precedence} :
    printed slots slot required ≠ none ↔ slots slot ≠ none := by
  simp [printed]

/-- With one operand given, a missing one is the neutral literal. -/
theorem operands_of_given (operator : LogicalOperator) {left right : Option String}
    (given : left ≠ none ∨ right ≠ none) :
    operator.operands left right =
      (left.getD operator.neutral, right.getD operator.neutral) := by
  cases left with
  | some left => rfl
  | none =>
      cases right with
      | some right => rfl
      | none => exact absurd rfl (given.elim id id)

theorem tree_logical_of_given (op : Infix) (neutral : Word)
    (given : slots "A" ≠ none ∨ slots "B" ≠ none) :
    (Form.logical op neutral).tree names slots =
      .binary op (Form.operand slots "A" neutral) (Form.operand slots "B" neutral) := by
  cases first : slots "A" with
  | some left => simp [Form.tree, first]
  | none =>
      cases second : slots "B" with
      | some right => simp [Form.tree, first, second]
      | none =>
          rw [first, second] at given
          exact absurd rfl (given.elim id id)

theorem tree_logical_of_none (op : Infix) (neutral : Word) (first : slots "A" = none)
    (second : slots "B" = none) :
    (Form.logical op neutral).tree names slots = .binary op (.atom .zero) (.atom .zero) := by
  simp [Form.tree, first, second]

section

variable (site : Site)

theorem binary_handles {choice : String → Option BinaryOperator} {op : Infix}
    (chosen : choice (site.field operatorField) = some op.operator) :
    Handles (Handlers.binary choice) site (.binary op) := by
  apply handles_of_prints
  intro names slots
  simp only [chosen]
  change some (op.operator.join ((printed slots "A" op.level).getD Word.zero.text)
    ((printed slots "B" op.right).getD Word.zero.text)) = _
  rw [getD_printed, getD_printed]
  rfl

theorem logical_handles {and or : BinaryOperator} {op : Infix} {neutral : Word}
    (chosen : Handlers.logical? and or (site.field operatorField) =
      some ⟨op.operator, neutral.text⟩) (chains : op.chains = true) :
    Handles (Handlers.logical and or) site (.logical op neutral) := by
  apply handles_of_prints
  intro names slots
  simp only [chosen]
  have level : op.right = op.level := Infix.right_of_chains chains
  let operator : LogicalOperator := ⟨op.operator, neutral.text⟩
  let operands := operator.operands (printed slots "A" op.level) (printed slots "B" op.level)
  change some (op.operator.join operands.1 operands.2) = _
  by_cases given : slots "A" ≠ none ∨ slots "B" ≠ none
  · have both : operands = ((printed slots "A" op.level).getD neutral.text,
        (printed slots "B" op.right).getD neutral.text) := by
      rw [level]
      apply operands_of_given
      rwa [printed_ne_none, printed_ne_none]
    rw [both, tree_logical_of_given op neutral given, getD_printed, getD_printed]
    rfl
  · simp only [not_or, not_not] at given
    have missing : operands = ("0", "0") := by
      simp only [operands, printed, given.1, given.2]
      rfl
    rw [missing, tree_logical_of_none op neutral given.1 given.2]
    change _ = some ((Tree.atom .zero).within op.level ++ " " ++ op.text ++ " " ++
      (Tree.atom .zero).within op.right, op.level)
    rw [Tree.within_atom, Tree.within_atom]
    rfl

theorem negation_handles (sign : Sign) :
    Handles (Handlers.negation sign.text) site (.negation sign) := by
  apply handles_of_prints
  intro names slots
  change some (sign.text ++ (printed slots "BOOL" .unary).getD Word.one.text, Precedence.unary) = _
  rw [getD_printed]
  rfl

theorem ternary_handles : Handles Handlers.ternary site .ternary := by
  apply handles_of_prints
  intro names slots
  change some ((printed slots "IF" .logicOr).getD Word.zero.text ++ " ? " ++
    (printed slots "THEN" .conditional).getD Word.unknown.text ++ " : " ++
      (printed slots "ELSE" .conditional).getD Word.unknown.text, Precedence.conditional) = _
  rw [getD_printed, getD_printed, getD_printed]
  rfl

theorem edge_handles (side : Edge) : Handles (Handlers.edge side.text) site (.edge side) := by
  apply handles_of_prints
  intro names slots
  change some (side.text ++ " " ++ (printed slots "NAME" .member).getD Word.unknown.text,
    Precedence.none) = _
  rw [getD_printed]
  rfl

theorem bitSelect_handles : Handles Handlers.bitSelect site .select := by
  apply handles_of_prints
  intro names slots
  change some ((printed slots "NAME" .member).getD Word.unknown.text ++ "[" ++
    (printed slots "number" .none).getD Word.zero.text ++ "]", Precedence.member) = _
  rw [getD_printed, getD_printed]
  rfl

theorem concatenation_handles : Handles Handlers.concatenation site .concat := by
  apply handles_of_prints
  intro names slots
  change some ("\x7b" ++ (printed slots "arg1" .none).getD Word.unknown.text ++ ", " ++
    (printed slots "arg2" .none).getD Word.unknown.text ++ "\x7d", Precedence.atomic) = _
  rw [getD_printed, getD_printed]
  rfl

theorem replication_handles : Handles Handlers.replication site .replicate := by
  apply handles_of_prints
  intro names slots
  change some ("\x7b" ++ (printed slots "count" .atomic).getD Word.one.text ++ "\x7b" ++
    (printed slots "value" .none).getD Word.unknown.text ++ "\x7d\x7d", Precedence.atomic) = _
  rw [getD_printed, getD_printed]
  rfl

theorem sizedValue_handles (radix : Radix) :
    Handles (Handlers.sizedValue radix) site (.sized radix) := by
  apply handles_of_prints
  intro names slots
  change some (atom (sizedLiteral radix ((printed slots "number" .none).getD ""))) = _
  have same : (printed slots "number" .none).getD "" =
      ((slots "number").map Tree.text).getD "" := by
    unfold printed
    cases slots "number" with
    | none => rfl
    | some tree => exact (Tree.within_of_le (Tree.le_none tree.level)).1
  rw [same]
  rfl

theorem variableRead_handles :
    Handles Handlers.variableRead site (.variable (site.field "VAR")) := by
  apply handles_of_prints
  intro names slots
  rfl

theorem constant_handles (word : Word) :
    Handles (Handlers.constant word.text) site (.literal false word) := by
  apply handles_of_prints
  intro names slots
  rfl

theorem truthValue_handles : Handles Handlers.truthValue site
    (.literal false (if site.field "BOOL" = "TRUE" then .one else .zero)) := by
  apply handles_of_prints
  intro names slots
  change some (atom (if site.field "BOOL" = "TRUE" then "1" else "0")) = _
  split <;> rfl

theorem natAbs?_zero (negative : Bool) (exponent : Nat) :
    (Binary64.finite negative 0 exponent).natAbs? = some 0 := by
  simp [Binary64.natAbs?, Binary64.units?]

/-- The text of a finite number is its digits, behind a sign if it is negative. -/
theorem toList_text_of_finite (negative : Bool) (mantissa exponent : Nat) :
    (Binary64.finite negative mantissa exponent).text.toList =
      Binary64.signText (Binary64.finite negative mantissa exponent).isNegative ++
        magnitude (.finite negative mantissa exponent) := by
  have sign : mantissa ≠ 0 →
      (Binary64.finite negative mantissa exponent).isNegative = negative := by
    intro nonzero
    simp [Binary64.isNegative, nonzero]
  have nonzero : ∀ n, (Binary64.finite negative mantissa exponent).natAbs? = some n →
      ¬ n < Binary64.wholeBound → mantissa ≠ 0 := by
    rintro n given large rfl
    rw [natAbs?_zero] at given
    obtain rfl := Option.some.inj given
    exact large (Nat.pow_pos (by decide))
  unfold Binary64.text
  cases given : (Binary64.finite negative mantissa exponent).natAbs? with
  | none =>
      have nonzero : mantissa ≠ 0 := by
        rintro rfl
        rw [natAbs?_zero] at given
        cases given
      simp only [magnitude, given, String.toList_ofList, Binary64.positional, sign nonzero]
  | some n =>
      by_cases small : n < Binary64.wholeBound
      · simp only [magnitude, given, small, if_true, String.toList_ofList]
      · simp only [magnitude, given, small, if_false, String.toList_ofList, Binary64.positional,
          sign (nonzero n given small)]

theorem text_of_isFinite {x : Binary64} (isFinite : x.isFinite = true) :
    x.text = (if x.isNegative then "-" else "") ++ (numeral x).text := by
  rw [← String.toList_inj]
  cases x with
  | nan => cases isFinite
  | infinite negative => cases isFinite
  | finite negative mantissa exponent =>
      rw [toList_text_of_finite, String.toList_append, numeral, String.toList_ofList]
      cases (Binary64.finite negative mantissa exponent).isNegative <;> rfl

theorem number_handles :
    Handles Handlers.number site (numberForm (site.node.fields.get? "NUM")) := by
  apply handles_of_prints
  intro names slots
  change some (numberExpression (site.node.fields.get? "NUM")) = _
  cases given : ((site.node.fields.get? "NUM").bind FieldValue.asNumber?).filter
      Binary64.isFinite with
  | none =>
      simp only [numberExpression, numberForm, given]
      rfl
  | some x =>
      have isFinite : x.isFinite = true := (Option.filter_eq_some_iff.mp given).2
      simp only [numberExpression, numberForm, given, text_of_isFinite isFinite]
      cases x.isNegative with
      | true => rfl
      | false => simp [Form.tree, Tree.expression, Tree.text, Tree.level]

end

theorem operator_of_comparison? {text : String} {op : Infix} (chosen : comparison? text = some op) :
    Handlers.comparison? text = some op.operator := by
  unfold comparison? at chosen
  split at chosen
  all_goals cases chosen
  all_goals rfl

theorem operator_of_bitwise? {text : String} {op : Infix} (chosen : bitwise? text = some op) :
    Handlers.bitwise? text = some op.operator := by
  unfold bitwise? at chosen
  split at chosen
  all_goals cases chosen
  all_goals rfl

theorem operator_of_arithmetic? {text : String} {op : Infix} (chosen : arithmetic? text = some op) :
    Handlers.arithmetic? text = some op.operator := by
  unfold arithmetic? at chosen
  split at chosen
  all_goals cases chosen
  all_goals rfl

theorem logicSigns_handles (site : Site) {form : Form}
    (known : logical? (site.field operatorField) = some form) :
    Handles logicSigns site form := by
  unfold logical? at known
  split at known
  next text =>
    obtain rfl := Option.some.inj known
    exact logical_handles site (by rw [text]; rfl) rfl
  next text =>
    obtain rfl := Option.some.inj known
    exact logical_handles site (by rw [text]; rfl) rfl
  next => cases known

/-- A node of known form is handled as that form. -/
theorem handler_of_form (site : Site) {form : Form} (known : form? site.node = some form) :
    ∃ handler, HandlerTable.builtin.get? site.node.kind = some handler ∧
      Handles handler site form := by
  have registered : ∀ {kind : String} {handler : Handler}, site.node.kind = kind →
      (kind, handler) ∈ builtin → Handles handler site form →
      ∃ handler, HandlerTable.builtin.get? site.node.kind = some handler ∧
        Handles handler site form := fun same listed handles =>
    ⟨_, same ▸ HandlerTable.get?_builtin listed, handles⟩
  unfold form? at known
  split at known
  all_goals try (obtain rfl := Option.some.inj known)
  next kind => exact registered kind (by simp [builtin]) (truthValue_handles site)
  next kind =>
    exact registered kind (by simp [builtin, Word.unknown]) (constant_handles site .unknown)
  next kind =>
    exact registered kind (by simp [builtin, Word.unknown]) (constant_handles site .unknown)
  next kind => exact registered kind (by simp [builtin]) (constant_handles site ⟨"Z", by decide⟩)
  next kind => exact registered kind (by simp [builtin, Word.one]) (constant_handles site .one)
  next kind => exact registered kind (by simp [builtin, Word.zero]) (constant_handles site .zero)
  next kind => exact registered kind (by simp [builtin]) (number_handles site)
  next kind => exact registered kind (by simp [builtin]) (variableRead_handles site)
  next kind => exact registered kind (by simp [builtin]) (sizedValue_handles site .binary)
  next kind => exact registered kind (by simp [builtin]) (sizedValue_handles site .hex)
  next kind => exact registered kind (by simp [builtin]) (sizedValue_handles site .octal)
  next kind =>
    obtain ⟨op, chosen, rfl⟩ := Option.map_eq_some_iff.mp known
    exact registered kind (by simp [builtin]) (binary_handles site (operator_of_comparison? chosen))
  next kind => exact registered kind (by simp [builtin]) (logicSigns_handles site known)
  next kind =>
    obtain ⟨op, chosen, rfl⟩ := Option.map_eq_some_iff.mp known
    exact registered kind (by simp [builtin]) (binary_handles site (operator_of_bitwise? chosen))
  next kind =>
    obtain ⟨op, chosen, rfl⟩ := Option.map_eq_some_iff.mp known
    exact registered kind (by simp [builtin]) (binary_handles site (operator_of_arithmetic? chosen))
  next kind => exact registered kind (by simp [builtin, Sign.text]) (negation_handles site .logical)
  next kind => exact registered kind (by simp [builtin, Sign.text]) (negation_handles site .bitwise)
  next kind => exact registered kind (by simp [builtin]) (ternary_handles site)
  next kind => exact registered kind (by simp [builtin, Edge.text]) (edge_handles site .rising)
  next kind => exact registered kind (by simp [builtin, Edge.text]) (edge_handles site .falling)
  next kind => exact registered kind (by simp [builtin]) (bitSelect_handles site)
  next kind => exact registered kind (by simp [builtin]) (concatenation_handles site)
  next kind => exact registered kind (by simp [builtin]) (replication_handles site)
  next => cases known

end Reading

end BlockVerilog
