import BlockVerilog.Handlers.Binary
import BlockVerilog.Identifier

/-!
Expressions as trees of operators.

A printed tree has parentheses only where a level asks for them. Some operators take an operand of
their own level on the right without parentheses; a text read from the left groups it the other
way, as `regrouped` does.
-/

namespace BlockVerilog.Reading

/-- The characters of names and literals. -/
def isAtomChar (c : Char) : Bool := Identifier.isWordChar c || c = '\x27' || c = '.'

/-- The two edges of a signal. -/
inductive Edge where
  | rising
  | falling
  deriving DecidableEq, Repr

def Edge.text : Edge → String
  | rising => "posedge"
  | falling => "negedge"

/-- The two negations. -/
inductive Sign where
  | logical
  | bitwise
  deriving DecidableEq, Repr

def Sign.text : Sign → String
  | logical => "!"
  | bitwise => "~"

/-- Whether a text is one name or literal. -/
def isWord (text : List Char) : Bool :=
  text ≠ [] && text.all isAtomChar && text ≠ Edge.rising.text.toList &&
    text ≠ Edge.falling.text.toList

/-- A name or a literal. -/
structure Word where
  text : String
  spelled : isWord text.toList = true
  deriving DecidableEq

namespace Word

/-- The literals that stand for missing operands. -/
def zero : Word := ⟨"0", by decide⟩

def one : Word := ⟨"1", by decide⟩

def unknown : Word := ⟨"X", by decide⟩

/-- A text as a word; one that is none becomes unknown. -/
def ofText (text : String) : Word :=
  if spelled : isWord text.toList = true then ⟨text, spelled⟩ else unknown

theorem ofText_text {text : String} (spelled : isWord text.toList = true) :
    (ofText text).text = text := by
  simp [ofText, spelled]

theorem ne_nil (w : Word) : w.text.toList ≠ [] := by
  intro empty
  have spelled := w.spelled
  simp [isWord, empty] at spelled

theorem isAtomChar_of_mem (w : Word) {c : Char} (member : c ∈ w.text.toList) :
    isAtomChar c = true := by
  have spelled := w.spelled
  simp only [isWord, Bool.and_eq_true, List.all_eq_true] at spelled
  exact spelled.1.1.2 c member

end Word

/-- The operators between two operands. -/
inductive Infix where
  | equal
  | notEqual
  | less
  | lessOrEqual
  | greater
  | greaterOrEqual
  | caseEqual
  | caseNotEqual
  | logicAnd
  | logicOr
  | bitAnd
  | bitOr
  | bitXor
  | bitXnor
  | add
  | subtract
  | multiply
  | divide
  | modulo
  | shiftLeft
  | shiftRight
  deriving DecidableEq, Repr

namespace Infix

open Handlers

/-- An operator as it is generated. -/
def operator : Infix → BinaryOperator
  | equal => .grouping "==" Operator.logicEquality.level
  | notEqual => .grouping "!=" Operator.logicInequality.level
  | less => .grouping "<" Operator.lessThan.level
  | lessOrEqual => .grouping "<=" Operator.lessOrEqual.level
  | greater => .grouping ">" Operator.greaterThan.level
  | greaterOrEqual => .grouping ">=" Operator.greaterOrEqual.level
  | caseEqual => .grouping "===" Operator.caseEquality.level
  | caseNotEqual => .grouping "!==" Operator.caseInequality.level
  | logicAnd => .chaining "&&" .logicAnd
  | logicOr => .chaining "||" .logicOr
  | bitAnd => .chaining "&" .bitwiseAnd
  | bitOr => .chaining "|" .bitwiseOr
  | bitXor => .chaining "^" .bitwiseXor
  | bitXnor => .chaining "~^" Operator.bitwiseXnor.level
  | add => .chaining "+" Operator.plus.level
  | subtract => .grouping "-" Operator.minus.level
  | multiply => .grouping "*" Operator.multiply.level
  | divide => .grouping "/" Operator.divide.level
  | modulo => .grouping "%" Operator.modulo.level
  | shiftLeft => .grouping "<<" Operator.shiftLeft.level
  | shiftRight => .grouping ">>" Operator.shiftRight.level

def text (op : Infix) : String := op.operator.text

def level (op : Infix) : Precedence := op.operator.level

/-- The level that its right operand may have. -/
def right (op : Infix) : Precedence := op.operator.right

/-- Whether an operand of its own level stands bare on the right. -/
def chains (op : Infix) : Bool := op.right = op.level

theorem right_of_chains {op : Infix} (chains : op.chains = true) : op.right = op.level := by
  simpa [Infix.chains] using chains

theorem right_of_not_chains {op : Infix} (groups : op.chains = false) :
    op.right = op.level.tighter := by
  revert groups
  cases op <;> decide

/-- The levels of operators between operands. -/
def isLevel (level : Precedence) : Bool :=
  Precedence.multiplicative ≤ level && level ≤ Precedence.logicOr

@[simp] theorem isLevel_level (op : Infix) : isLevel op.level = true := by
  cases op <;> decide

end Infix

/-- An expression as its operators group it. -/
inductive Tree where
  | atom (word : Word)
  /-- A negative literal. -/
  | minus (word : Word)
  | negation (sign : Sign) (operand : Tree)
  | binary (op : Infix) (left right : Tree)
  | ternary (condition yes no : Tree)
  | edge (side : Edge) (signal : Tree)
  | select (signal index : Tree)
  | concat (first second : Tree)
  | replicate (count value : Tree)
  deriving DecidableEq

namespace Tree

/-- The level of the outermost operator. -/
def level : Tree → Precedence
  | atom _ | concat _ _ | replicate _ _ => .atomic
  | select _ _ => .member
  | minus _ | negation _ _ => .unary
  | binary op _ _ => op.level
  | ternary _ _ _ => .conditional
  | edge _ _ => .none

/-- How a tree is printed. -/
def text : Tree → String
  | atom word => word.text
  | minus word => "-" ++ word.text
  | negation sign operand => sign.text ++ parenthesize operand.text operand.level .unary
  | binary op left right =>
      parenthesize left.text left.level op.level ++ " " ++ op.text ++ " " ++
        parenthesize right.text right.level op.right
  | ternary condition yes no =>
      parenthesize condition.text condition.level .logicOr ++ " ? " ++
        parenthesize yes.text yes.level .conditional ++ " : " ++
          parenthesize no.text no.level .conditional
  | edge side signal => side.text ++ " " ++ parenthesize signal.text signal.level .member
  | select signal index =>
      parenthesize signal.text signal.level .member ++ "[" ++
        parenthesize index.text index.level .none ++ "]"
  | concat first second =>
      "\x7b" ++ parenthesize first.text first.level .none ++ ", " ++
        parenthesize second.text second.level .none ++ "\x7d"
  | replicate count value =>
      "\x7b" ++ parenthesize count.text count.level .atomic ++ "\x7b" ++
        parenthesize value.text value.level .none ++ "\x7d\x7d"

/-- How a tree is printed in a place that requires a level. -/
def within (tree : Tree) (required : Precedence) : String :=
  parenthesize tree.text tree.level required

/-- The same operands, with an operator of the level of `op` on the right pulled out in front of
it: `op left (a ∘ b)` becomes `(op left a) ∘ b`, as long as there is one. -/
def graft (op : Infix) (left : Tree) : Tree → Tree
  | binary other first second =>
      if other.level = op.level then binary other (graft op left first) second
      else binary op left (binary other first second)
  | right => binary op left right

/-- An operator between two operands as it is read back: one that chains is grouped to the left. -/
def join (op : Infix) (left right : Tree) : Tree :=
  if op.chains then graft op left right else binary op left right

/-- A tree as it is read back, with every chain grouped to the left. -/
def regrouped : Tree → Tree
  | atom word => atom word
  | minus word => minus word
  | negation sign operand => negation sign operand.regrouped
  | binary op left right => join op left.regrouped right.regrouped
  | ternary condition yes no => ternary condition.regrouped yes.regrouped no.regrouped
  | edge side signal => edge side signal.regrouped
  | select signal index => select signal.regrouped index.regrouped
  | concat first second => concat first.regrouped second.regrouped
  | replicate count value => replicate count.regrouped value.regrouped

theorem graft_of_level_ne {op : Infix} {left right : Tree} (other : right.level ≠ op.level) :
    graft op left right = binary op left right := by
  cases right with
  | binary inner first second => exact if_neg other
  | _ => rfl

@[simp] theorem graft_binary {op other : Infix} (same : other.level = op.level)
    (left first second : Tree) :
    graft op left (binary other first second) = binary other (graft op left first) second := by
  simp [graft, same]

@[simp] theorem level_graft (op : Infix) (left right : Tree) :
    (graft op left right).level = op.level := by
  cases right with
  | binary other first second =>
      by_cases same : other.level = op.level
      · rw [graft_binary same]
        exact same
      · have stays : graft op left (binary other first second) =
            binary op left (binary other first second) := graft_of_level_ne same
        rw [stays]
        rfl
  | _ => rfl

@[simp] theorem level_join (op : Infix) (left right : Tree) :
    (join op left right).level = op.level := by
  unfold join
  split
  next => exact level_graft op left right
  next => rfl

@[simp] theorem level_regrouped (tree : Tree) : tree.regrouped.level = tree.level := by
  cases tree with
  | binary op left right => exact level_join op left.regrouped right.regrouped
  | _ => rfl

/-- Grafts of operators of one level can be made in either order. -/
theorem graft_graft {op other : Infix} (same : other.level = op.level) (left middle right : Tree) :
    graft op left (graft other middle right) = graft other (graft op left middle) right := by
  induction right with
  | binary last first second inductionHypothesis _ =>
      by_cases joins : last.level = other.level
      · rw [graft_binary joins, graft_binary (joins.trans same), graft_binary joins,
          inductionHypothesis]
      · have stays : ∀ before, graft other before (binary last first second) =
            binary other before (binary last first second) :=
          fun before => graft_of_level_ne joins
        rw [stays, stays, graft_binary same]
  | _ => simp [graft, same]

/-- An operator on the right is joined as its operands are, one after the other. -/
theorem graft_join {op other : Infix} (same : other.level = op.level) (left first second : Tree) :
    graft op left (join other first second) = join other (graft op left first) second := by
  unfold join
  split
  next => exact graft_graft same left first second
  next => exact graft_binary same left first second

/-- No operator that chains has an operand of its own level on its right. -/
def IsLeftGrouped : Tree → Prop
  | atom _ | minus _ => True
  | negation _ operand => operand.IsLeftGrouped
  | binary op left right =>
      (op.chains = true → right.level ≠ op.level) ∧ left.IsLeftGrouped ∧ right.IsLeftGrouped
  | ternary condition yes no =>
      condition.IsLeftGrouped ∧ yes.IsLeftGrouped ∧ no.IsLeftGrouped
  | edge _ signal => signal.IsLeftGrouped
  | select signal index => signal.IsLeftGrouped ∧ index.IsLeftGrouped
  | concat first second => first.IsLeftGrouped ∧ second.IsLeftGrouped
  | replicate count value => count.IsLeftGrouped ∧ value.IsLeftGrouped

/-- A tree that is grouped to the left is read back as it is. -/
theorem regrouped_of_isLeftGrouped {tree : Tree} (grouped : tree.IsLeftGrouped) :
    tree.regrouped = tree := by
  induction tree with
  | atom word => rfl
  | minus word => rfl
  | binary op left right first second =>
      obtain ⟨apart, leftGrouped, rightGrouped⟩ := grouped
      rw [regrouped, first leftGrouped, second rightGrouped, join]
      split
      next chains => exact graft_of_level_ne (apart chains)
      next => rfl
  | negation sign operand inner => rw [regrouped, inner grouped]
  | edge side signal inner => rw [regrouped, inner grouped]
  | select signal index first second => rw [regrouped, first grouped.1, second grouped.2]
  | concat left right first second => rw [regrouped, first grouped.1, second grouped.2]
  | replicate count value first second => rw [regrouped, first grouped.1, second grouped.2]
  | ternary condition yes no first second third =>
      rw [regrouped, first grouped.1, second grouped.2.1, third grouped.2.2]

theorem isLeftGrouped_graft {op : Infix} {left right : Tree} (leftGrouped : left.IsLeftGrouped)
    (rightGrouped : right.IsLeftGrouped) : (graft op left right).IsLeftGrouped := by
  induction right with
  | binary other first second inductionHypothesis _ =>
      by_cases same : other.level = op.level
      · rw [graft_binary same]
        exact ⟨rightGrouped.1, inductionHypothesis rightGrouped.2.1, rightGrouped.2.2⟩
      · rw [graft_of_level_ne (show (binary other first second).level ≠ op.level from same)]
        exact ⟨fun _ => same, leftGrouped, rightGrouped⟩
  | _ =>
      refine ⟨fun _ same => ?_, leftGrouped, rightGrouped⟩
      have operator := op.isLevel_level
      rw [← same] at operator
      cases operator

theorem isLeftGrouped_regrouped (tree : Tree) : tree.regrouped.IsLeftGrouped := by
  induction tree with
  | atom word => trivial
  | minus word => trivial
  | binary op left right first second =>
      rw [regrouped, join]
      split
      next => exact isLeftGrouped_graft first second
      next groups => exact ⟨fun chains => absurd chains groups, first, second⟩
  | negation sign operand inner => exact inner
  | edge side signal inner => exact inner
  | select signal index first second => exact ⟨first, second⟩
  | concat left right first second => exact ⟨first, second⟩
  | replicate count value first second => exact ⟨first, second⟩
  | ternary condition yes no first second third => exact ⟨first, second, third⟩

theorem text_ne_empty (tree : Tree) : tree.text ≠ "" := by
  intro empty
  have noText : tree.text.toList = [] := by rw [empty]; rfl
  cases tree with
  | atom word => exact word.ne_nil noText
  | negation sign operand => cases sign <;> simp [text, Sign.text] at noText
  | edge side signal => cases side <;> simp [text, Edge.text] at noText
  | _ => simp [text] at noText

end Tree

end BlockVerilog.Reading
