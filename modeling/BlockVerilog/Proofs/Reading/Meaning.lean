import BlockVerilog.Proofs.Reading.Tree

/-!
Regrouping keeps the value of an expression.

The operators that chain, and the subtraction that shares a level with one of them, have their
meaning on words of some width; names, literals and all other operators may mean anything.
-/

namespace BlockVerilog.Reading

/-- What names, literals and operators mean on words of a width. -/
structure Meaning (width : Nat) where
  word : Word → BitVec width
  minus : Word → BitVec width
  negation : Sign → BitVec width → BitVec width
  /-- The operators that never chain. -/
  grouping : Infix → BitVec width → BitVec width → BitVec width
  ternary : BitVec width → BitVec width → BitVec width → BitVec width
  edge : Edge → BitVec width → BitVec width
  select : BitVec width → BitVec width → BitVec width
  concat : BitVec width → BitVec width → BitVec width
  replicate : BitVec width → BitVec width → BitVec width

namespace Meaning

variable {width : Nat}

/-- A truth value as a word. -/
def truth (value : Bool) : BitVec width := BitVec.ofNat width value.toNat

/-- Whether a word is true. -/
def isTrue (value : BitVec width) : Bool := value != 0

/-- The meaning of an operator between two operands. -/
def between (meaning : Meaning width) (op : Infix) (left right : BitVec width) : BitVec width :=
  match op with
  | .add => left + right
  | .subtract => left - right
  | .bitAnd => left &&& right
  | .bitOr => left ||| right
  | .bitXor => left ^^^ right
  | .bitXnor => ~~~(left ^^^ right)
  | .logicAnd => truth (isTrue left && isTrue right)
  | .logicOr => truth (isTrue left || isTrue right)
  | _ => meaning.grouping op left right

/-- The value of a tree. -/
def value (meaning : Meaning width) : Tree → BitVec width
  | .atom word => meaning.word word
  | .minus word => meaning.minus word
  | .negation sign operand => meaning.negation sign (meaning.value operand)
  | .binary op left right => meaning.between op (meaning.value left) (meaning.value right)
  | .ternary condition yes no =>
      meaning.ternary (meaning.value condition) (meaning.value yes) (meaning.value no)
  | .edge side signal => meaning.edge side (meaning.value signal)
  | .select signal index => meaning.select (meaning.value signal) (meaning.value index)
  | .concat first second => meaning.concat (meaning.value first) (meaning.value second)
  | .replicate count value => meaning.replicate (meaning.value count) (meaning.value value)

/-- A truth value is read back from a word that has a bit to hold it. -/
theorem isTrue_truth (value : Bool) : isTrue (truth value : BitVec (width + 1)) = value := by
  have one_ne_zero : (1#(width + 1)) ≠ 0#(width + 1) := by
    intro same
    have bits := congrArg (fun v => v.getLsbD 0) same
    simp at bits
  cases value with
  | false => simp [truth, isTrue]
  | true => simp [truth, isTrue, one_ne_zero]

theorem eq_of_no_width (first second : BitVec 0) : first = second := by
  rw [BitVec.eq_nil first, BitVec.eq_nil second]

theorem xnor_regroup (first second third : BitVec width) :
    ~~~(~~~(first ^^^ second) ^^^ third) = ~~~(first ^^^ ~~~(second ^^^ third)) := by
  rw [← BitVec.not_xor_left, ← BitVec.not_xor_right, BitVec.xor_assoc]

/-- An operator that chains may be grouped either way with one of its level on its right. -/
theorem between_regroup (meaning : Meaning width) {op other : Infix} (chains : op.chains = true)
    (same : other.level = op.level) (first second third : BitVec width) :
    meaning.between other (meaning.between op first second) third =
      meaning.between op first (meaning.between other second third) := by
  cases op <;> try (exact absurd chains (by decide))
  case logicAnd =>
    cases other <;> try (exact absurd same (by decide))
    cases width with
    | zero => exact eq_of_no_width _ _
    | succ width => simp only [between, isTrue_truth, Bool.and_assoc]
  case logicOr =>
    cases other <;> try (exact absurd same (by decide))
    cases width with
    | zero => exact eq_of_no_width _ _
    | succ width => simp only [between, isTrue_truth, Bool.or_assoc]
  case bitAnd =>
    cases other <;> try (exact absurd same (by decide))
    exact BitVec.and_assoc first second third
  case bitOr =>
    cases other <;> try (exact absurd same (by decide))
    exact BitVec.or_assoc first second third
  case bitXor =>
    cases other <;> try (exact absurd same (by decide))
    case bitXor => exact BitVec.xor_assoc first second third
    case bitXnor => simp only [between, BitVec.xor_assoc, BitVec.not_xor_right]
  case bitXnor =>
    cases other <;> try (exact absurd same (by decide))
    case bitXor => simp only [between, BitVec.xor_assoc, BitVec.not_xor_left]
    case bitXnor => exact xnor_regroup first second third
  case add =>
    cases other <;> try (exact absurd same (by decide))
    case add => exact BitVec.add_assoc first second third
    case subtract =>
      simp only [between, BitVec.sub_eq_add_neg, BitVec.add_assoc]

theorem value_graft (meaning : Meaning width) {op : Infix} (chains : op.chains = true)
    (left right : Tree) :
    meaning.value (.graft op left right) =
      meaning.between op (meaning.value left) (meaning.value right) := by
  induction right with
  | binary other first second inductionHypothesis _ =>
      by_cases same : other.level = op.level
      · rw [Tree.graft_binary same]
        change meaning.between other (meaning.value (.graft op left first)) _ = _
        rw [inductionHypothesis]
        exact between_regroup meaning chains same _ _ _
      · have stays : Tree.graft op left (.binary other first second) =
            .binary op left (.binary other first second) := Tree.graft_of_level_ne same
        rw [stays]
        rfl
  | _ => rfl

theorem value_join (meaning : Meaning width) (op : Infix) (left right : Tree) :
    meaning.value (.join op left right) =
      meaning.between op (meaning.value left) (meaning.value right) := by
  unfold Tree.join
  split
  next chains => exact value_graft meaning chains left right
  next => rfl

/-- A tree has the value that it has as it is read back. -/
theorem value_regrouped (meaning : Meaning width) (tree : Tree) :
    meaning.value tree.regrouped = meaning.value tree := by
  induction tree with
  | atom word => rfl
  | minus word => rfl
  | binary op left right first second =>
      change meaning.value (.join op left.regrouped right.regrouped) = _
      rw [value_join, first, second]
      rfl
  | negation _ _ first => simp only [Tree.regrouped, value, first]
  | edge _ _ first => simp only [Tree.regrouped, value, first]
  | select _ _ first second => simp only [Tree.regrouped, value, first, second]
  | concat _ _ first second => simp only [Tree.regrouped, value, first, second]
  | replicate _ _ first second => simp only [Tree.regrouped, value, first, second]
  | ternary _ _ _ first second third => simp only [Tree.regrouped, value, first, second, third]

end Meaning

end BlockVerilog.Reading
