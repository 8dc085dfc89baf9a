/-!
Binding strengths of Verilog expressions, and the parentheses that follow from them.

The levels are listed tightest first. A child is put in parentheses exactly where it binds looser
than its place requires; equal levels stay bare, so a chain of one level reads from the left.
-/

namespace BlockVerilog

/-- The binding strength of the outermost operator of an expression. -/
inductive Precedence where
  | atomic
  | member
  | bracket
  | unary
  | unarySign
  | concat
  | replicate
  | multiplicative
  | additive
  | shift
  | relational
  | equality
  | caseEquality
  | bitwiseAnd
  | bitwiseXor
  | bitwiseOr
  | logicAnd
  | logicOr
  | conditional
  | none
  deriving DecidableEq, Repr

namespace Precedence

/-- Every level, tightest first. -/
def all : List Precedence :=
  [atomic, member, bracket, unary, unarySign, concat, replicate, multiplicative, additive, shift,
    relational, equality, caseEquality, bitwiseAnd, bitwiseXor, bitwiseOr, logicAnd, logicOr,
    conditional, none]

/-- The place of a level in the order from tightest to loosest. -/
def index : Precedence → Nat
  | atomic => 0
  | member => 1
  | bracket => 2
  | unary => 3
  | unarySign => 4
  | concat => 5
  | replicate => 6
  | multiplicative => 7
  | additive => 8
  | shift => 9
  | relational => 10
  | equality => 11
  | caseEquality => 12
  | bitwiseAnd => 13
  | bitwiseXor => 14
  | bitwiseOr => 15
  | logicAnd => 16
  | logicOr => 17
  | conditional => 18
  | none => 19

theorem getElem?_all (p : Precedence) : all[p.index]? = some p := by
  cases p <;> rfl

theorem index_injective {p q : Precedence} (same : p.index = q.index) : p = q := by
  have := getElem?_all p
  rw [same, getElem?_all q] at this
  exact (Option.some.inj this).symm

/-- The looser a level binds, the greater it is. -/
instance : LE Precedence := ⟨fun p q => p.index ≤ q.index⟩

instance : LT Precedence := ⟨fun p q => p.index < q.index⟩

instance (p q : Precedence) : Decidable (p ≤ q) :=
  inferInstanceAs (Decidable (p.index ≤ q.index))

instance (p q : Precedence) : Decidable (p < q) :=
  inferInstanceAs (Decidable (p.index < q.index))

theorem le_iff_index_le {p q : Precedence} : p ≤ q ↔ p.index ≤ q.index := Iff.rfl

theorem lt_iff_index_lt {p q : Precedence} : p < q ↔ p.index < q.index := Iff.rfl

/-- The name of a level. -/
def name : Precedence → String
  | atomic => "Atomic"
  | member => "Member"
  | bracket => "Bracket"
  | unary => "Unary"
  | unarySign => "UnarySign"
  | concat => "Concat"
  | replicate => "Replicate"
  | multiplicative => "Multiplicative"
  | additive => "Additive"
  | shift => "Shift"
  | relational => "Relational"
  | equality => "Equality"
  | caseEquality => "CaseEquality"
  | bitwiseAnd => "BitwiseAnd"
  | bitwiseXor => "BitwiseXor"
  | bitwiseOr => "BitwiseOr"
  | logicAnd => "LogicAnd"
  | logicOr => "LogicOr"
  | conditional => "Conditional"
  | none => "None"

def ofName? (name : String) : Option Precedence :=
  all.find? (·.name = name)

/-- The level as a number, in tenths: the levels around the unary operators lie between two
whole numbers, and the bare value stands apart from all operators. -/
def tenths : Precedence → Nat
  | atomic => 0
  | member => 10
  | bracket => 11
  | unary => 12
  | unarySign => 20
  | concat => 30
  | replicate => 40
  | multiplicative => 50
  | additive => 60
  | shift => 70
  | relational => 80
  | equality => 90
  | caseEquality => 100
  | bitwiseAnd => 110
  | bitwiseXor => 120
  | bitwiseOr => 130
  | logicAnd => 140
  | logicOr => 150
  | conditional => 160
  | none => 500

/-- The level as written: tenths only where there are some. -/
def text (p : Precedence) : String :=
  let whole := toString (p.tenths / 10)
  if p.tenths % 10 = 0 then whole else whole ++ "." ++ toString (p.tenths % 10)

/-- The next tighter level; nothing is tighter than an atom. -/
def tighter (p : Precedence) : Precedence :=
  all[p.index - 1]?.getD atomic

theorem index_tighter (p : Precedence) : p.tighter.index = p.index - 1 := by
  cases p <;> rfl

/-- Whether a child of level `child` needs parentheses where `required` is expected. -/
def needsParens (child required : Precedence) : Bool :=
  required < child

theorem needsParens_eq_false_iff {child required : Precedence} :
    child.needsParens required = false ↔ child ≤ required := by
  simp [needsParens, lt_iff_index_lt, le_iff_index_le]

end Precedence

/-- A text in parentheses if its level binds looser than `required`. -/
def parenthesize (text : String) (child required : Precedence) : String :=
  if child.needsParens required then "(" ++ text ++ ")" else text

/-- The operators that share a level with others. -/
inductive Operator where
  | logicNegation
  | negation
  | reduceAnd
  | reduceOr
  | reduceNand
  | reduceNor
  | reduceXor
  | unaryPlus
  | unaryMinus
  | multiply
  | divide
  | modulo
  | plus
  | minus
  | shiftLeft
  | shiftRight
  | greaterThan
  | greaterOrEqual
  | lessThan
  | lessOrEqual
  | logicEquality
  | logicInequality
  | caseEquality
  | caseInequality
  | bitwiseXnor
  deriving DecidableEq, Repr

namespace Operator

def all : List Operator :=
  [logicNegation, negation, reduceAnd, reduceOr, reduceNand, reduceNor, reduceXor, unaryPlus,
    unaryMinus, multiply, divide, modulo, plus, minus, shiftLeft, shiftRight, greaterThan,
    greaterOrEqual, lessThan, lessOrEqual, logicEquality, logicInequality, caseEquality,
    caseInequality, bitwiseXnor]

/-- The level of an operator. The sign of a negative literal binds like the negations. -/
def level : Operator → Precedence
  | logicNegation | negation => .unary
  | reduceAnd | reduceOr | reduceNand | reduceNor | reduceXor => .unary
  | unaryPlus | unaryMinus => .unarySign
  | multiply | divide | modulo => .multiplicative
  | plus | minus => .additive
  | shiftLeft | shiftRight => .shift
  | greaterThan | greaterOrEqual | lessThan | lessOrEqual => .relational
  | logicEquality | logicInequality => .equality
  | caseEquality | caseInequality => .caseEquality
  | bitwiseXnor => .bitwiseXor

def name : Operator → String
  | logicNegation => "LOGIC_NEG"
  | negation => "NEG"
  | reduceAnd => "REDUCE_AND"
  | reduceOr => "REDUCE_OR"
  | reduceNand => "REDUCE_NAND"
  | reduceNor => "REDUCE_NOR"
  | reduceXor => "REDUCE_XOR"
  | unaryPlus => "UNARY_PLUS"
  | unaryMinus => "UNARY_MINUS"
  | multiply => "MULT"
  | divide => "DIV"
  | modulo => "MOD"
  | plus => "BINARY_PLUS"
  | minus => "BINARY_MINUS"
  | shiftLeft => "SHIFT_LEFT"
  | shiftRight => "SHIFT_RIGHT"
  | greaterThan => "GREATER_THAN"
  | greaterOrEqual => "GREATER_THAN_EQ"
  | lessThan => "LESS_THAN"
  | lessOrEqual => "LESS_THAN_EQ"
  | logicEquality => "LOGIC_EQ"
  | logicInequality => "LOGIC_INEQ"
  | caseEquality => "CASE_EQ"
  | caseInequality => "CASE_INEQ"
  | bitwiseXnor => "BITWISE_XNOR"

def ofName? (name : String) : Option Operator :=
  all.find? (·.name = name)

end Operator

end BlockVerilog
