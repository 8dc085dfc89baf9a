import BlockVerilog.Pass.Handler

/-!
Operators between two operands, each chosen by a field.

A binary operator that groups asks a tighter level of its right operand than its own, so that an
operand of the same level is put in parentheses there; on the left it is bare.
-/

namespace BlockVerilog.Handlers

/-- A binary operator. -/
structure BinaryOperator where
  text : String
  level : Precedence
  /-- The level that the right operand may have. -/
  right : Precedence
  deriving DecidableEq, Repr

namespace BinaryOperator

/-- An operator that may be regrouped: a chain of it is bare on both sides. -/
def chaining (text : String) (level : Precedence) : BinaryOperator := ⟨text, level, level⟩

/-- An operator that may not be regrouped. -/
def grouping (text : String) (level : Precedence) : BinaryOperator := ⟨text, level, level.tighter⟩

/-- The operator between its operands. -/
def join (op : BinaryOperator) (left right : String) : Expression :=
  (left ++ " " ++ op.text ++ " " ++ right, op.level)

/-- The operator on the slots `A` and `B`; a missing operand is zero. -/
def script (op : BinaryOperator) (site : Site) : Script Expression := do
  let left ← site.valueOr "A" op.level "0"
  let right ← site.valueOr "B" op.right "0"
  return op.join left right

end BinaryOperator

/-- The field that chooses an operator. -/
def operatorField : String := "OP"

def comparison? : String → Option BinaryOperator
  | "EQ" => some (.grouping "==" Operator.logicEquality.level)
  | "NEQ" => some (.grouping "!=" Operator.logicInequality.level)
  | "LT" => some (.grouping "<" Operator.lessThan.level)
  | "LTE" => some (.grouping "<=" Operator.lessOrEqual.level)
  | "GT" => some (.grouping ">" Operator.greaterThan.level)
  | "GTE" => some (.grouping ">=" Operator.greaterOrEqual.level)
  | "CASE_EQ" => some (.grouping "===" Operator.caseEquality.level)
  | "CASE_NEQ" => some (.grouping "!==" Operator.caseInequality.level)
  | _ => none

def bitwise? : String → Option BinaryOperator
  | "And" => some (.chaining "&" .bitwiseAnd)
  | "Or" => some (.chaining "|" .bitwiseOr)
  | "Xor" => some (.chaining "^" .bitwiseXor)
  | "Xnor" => some (.chaining "~^" Operator.bitwiseXnor.level)
  | _ => none

def arithmetic? : String → Option BinaryOperator
  | "ADD" => some (.chaining "+" Operator.plus.level)
  | "MINUS" => some (.grouping "-" Operator.minus.level)
  | "MULTIPLY" => some (.grouping "*" Operator.multiply.level)
  | "DIVIDE" => some (.grouping "/" Operator.divide.level)
  | "MODULO" => some (.grouping "%" Operator.modulo.level)
  | "SHIFT_LEFT" => some (.grouping "<<" Operator.shiftLeft.level)
  | "SHIFT_RIGHT" => some (.grouping ">>" Operator.shiftRight.level)
  | _ => none

/-- A binary operator chosen by a field. -/
def binary (choice : String → Option BinaryOperator) : Handler :=
  .expression fun site =>
    match choice (site.field operatorField) with
    | some op => op.script site
    | none => site.invalidField operatorField

/-- A logical operator, and the operand that leaves the other one as it is. -/
structure LogicalOperator where
  operator : BinaryOperator
  neutral : String
  deriving DecidableEq, Repr

/-- The two operators a logical node chooses between. -/
def logical? (and or : BinaryOperator) : String → Option LogicalOperator
  | "AND" => some ⟨and, "1"⟩
  | "OR" => some ⟨or, "0"⟩
  | _ => none

/-- Operands for what the slots hold: a single missing one is neutral, and both missing are
zero. -/
def LogicalOperator.operands (op : LogicalOperator) : Option String → Option String →
    String × String
  | none, none => ("0", "0")
  | left, right => (left.getD op.neutral, right.getD op.neutral)

def LogicalOperator.script (op : LogicalOperator) (site : Site) : Script Expression := do
  let left ← site.value "A" op.operator.level
  let right ← site.value "B" op.operator.level
  let (left, right) := op.operands left right
  return op.operator.join left right

/-- A logical operator chosen by a field. -/
def logical (and or : BinaryOperator) : Handler :=
  .expression fun site =>
    match logical? and or (site.field operatorField) with
    | some op => op.script site
    | none => site.invalidField operatorField

/-- Logic with the operators of the language. -/
def logicSigns : Handler := logical (.chaining "&&" .logicAnd) (.chaining "||" .logicOr)

/-- Logic with words; they bind like the unary operators. -/
def logicWords : Handler :=
  logical (.chaining "and" Operator.reduceAnd.level) (.chaining "or" Operator.reduceOr.level)

end BlockVerilog.Handlers
