import BlockVerilog.Handlers.Builtin
import BlockVerilog.Proofs.Reading.Literal
import BlockVerilog.Proofs.Reading.Printed

/-!
The trees that the nodes of a graph stand for.

`Form` says which operator a node is and in which slots its operands hang; what is missing has a
literal in its place. `Grows` puts the trees of a graph together from the forms of its nodes.
-/

namespace BlockVerilog.Reading

/-- The characters of a finite number without its sign. -/
def magnitude (x : Binary64) : List Char :=
  match x with
  | .finite _ mantissa exponent =>
      match x.natAbs? with
      | some n =>
          if n < Binary64.wholeBound then Nat.toDigits 10 n
          else (shortest .up mantissa exponent).positional
      | none => (shortest .up mantissa exponent).positional
  | _ => Nat.toDigits 10 0

theorem isWord_magnitude (x : Binary64) : isWord (magnitude x) = true := by
  unfold magnitude
  split
  next =>
    split
    next =>
      split
      next => exact isWord_toDigits _
      next => exact isWord_positional _
    next => exact isWord_positional _
  next => exact isWord_toDigits 0

/-- The literal of a finite number, apart from its sign. -/
def numeral (x : Binary64) : Word :=
  ⟨String.ofList (magnitude x), by rw [String.toList_ofList]; exact isWord_magnitude x⟩

/-- The literal with a width that a text denotes. -/
def sizedWord (radix : Radix) (text : String) : Word :=
  ⟨sizedLiteral radix text, isWord_sizedLiteral radix text⟩

/-- Which expression a node is. -/
inductive Form where
  | literal (negative : Bool) (word : Word)
  /-- The name of a variable. -/
  | variable (id : String)
  /-- The literal that the operand denotes as a text. -/
  | sized (radix : Radix)
  | binary (op : Infix)
  /-- An operator of which a single missing operand is neutral. -/
  | logical (op : Infix) (neutral : Word)
  | negation (sign : Sign)
  | ternary
  | edge (side : Edge)
  | select
  | concat
  | replicate

/-- The operators that a comparison chooses between. -/
def comparison? : String → Option Infix
  | "EQ" => some .equal
  | "NEQ" => some .notEqual
  | "LT" => some .less
  | "LTE" => some .lessOrEqual
  | "GT" => some .greater
  | "GTE" => some .greaterOrEqual
  | "CASE_EQ" => some .caseEqual
  | "CASE_NEQ" => some .caseNotEqual
  | _ => none

def logical? : String → Option Form
  | "AND" => some (.logical .logicAnd .one)
  | "OR" => some (.logical .logicOr .zero)
  | _ => none

def bitwise? : String → Option Infix
  | "And" => some .bitAnd
  | "Or" => some .bitOr
  | "Xor" => some .bitXor
  | "Xnor" => some .bitXnor
  | _ => none

def arithmetic? : String → Option Infix
  | "ADD" => some .add
  | "MINUS" => some .subtract
  | "MULTIPLY" => some .multiply
  | "DIVIDE" => some .divide
  | "MODULO" => some .modulo
  | "SHIFT_LEFT" => some .shiftLeft
  | "SHIFT_RIGHT" => some .shiftRight
  | _ => none

/-- A number field as a literal; what is no finite number is zero. -/
def numberForm (value : Option FieldValue) : Form :=
  match (value.bind FieldValue.asNumber?).filter Binary64.isFinite with
  | none => .literal false .zero
  | some x => .literal x.isNegative (numeral x)

/-- The expression that a node of a built-in kind is, if its operator is known. -/
def form? (node : Node) : Option Form :=
  match node.kind with
  | "logic_boolean" => some (.literal false (if node.field "BOOL" = "TRUE" then .one else .zero))
  | "logic_null" => some (.literal false .unknown)
  | "dont_care" => some (.literal false .unknown)
  | "high_impedence" => some (.literal false ⟨"Z", by decide⟩)
  | "one" => some (.literal false .one)
  | "zero" => some (.literal false .zero)
  | "math_number" => some (numberForm (node.fields.get? "NUM"))
  | "variables_get" => some (.variable (node.field "VAR"))
  | "decimal_binary_return" => some (.sized .binary)
  | "decimal_hexa_return" => some (.sized .hex)
  | "decimal_octal_return" => some (.sized .octal)
  | "logic_compare" => (comparison? (node.field "OP")).map .binary
  | "logic_operation" => logical? (node.field "OP")
  | "logic_operation3" => (bitwise? (node.field "OP")).map .binary
  | "math_arithmetic" => (arithmetic? (node.field "OP")).map .binary
  | "logic_negate" => some (.negation .logical)
  | "logic_negate3" => some (.negation .bitwise)
  | "logic_ternary" => some .ternary
  | "pos_edge" => some (.edge .rising)
  | "neg_edge" => some (.edge .falling)
  | "bit_select" => some .select
  | "concat" => some .concat
  | "replicate" => some .replicate
  | _ => none

namespace Form

/-- The tree in a slot, or a literal where there is none. -/
def operand (slots : String → Option Tree) (slot : String) (missing : Word) : Tree :=
  (slots slot).getD (.atom missing)

/-- The tree of a form over the trees in its slots. -/
def tree (names : String → Word) (slots : String → Option Tree) : Form → Tree
  | literal negative word => if negative then .minus word else .atom word
  | .variable id => .atom (names id)
  | sized radix => .atom (sizedWord radix (((slots "number").map Tree.text).getD ""))
  | binary op => .binary op (operand slots "A" .zero) (operand slots "B" .zero)
  | logical op neutral =>
      match slots "A", slots "B" with
      | none, none => .binary op (.atom .zero) (.atom .zero)
      | _, _ => .binary op (operand slots "A" neutral) (operand slots "B" neutral)
  | negation sign => .negation sign (operand slots "BOOL" .one)
  | ternary =>
      .ternary (operand slots "IF" .zero) (operand slots "THEN" .unknown)
        (operand slots "ELSE" .unknown)
  | edge side => .edge side (operand slots "NAME" .unknown)
  | select => .select (operand slots "NAME" .unknown) (operand slots "number" .zero)
  | concat => .concat (operand slots "arg1" .unknown) (operand slots "arg2" .unknown)
  | replicate => .replicate (operand slots "count" .one) (operand slots "value" .unknown)

end Form

/-- A node of a graph grows into a tree, given the names of the variables; a disabled one into
none. -/
inductive Grows (g : Graph) (names : String → Word) : NodeId → Option Tree → Prop
  | disabled {id : NodeId} {node : Node} (found : g.get? id = some node)
      (off : node.enabled = false) : Grows g names id none
  | enabled {id : NodeId} {node : Node} {form : Form} (slots : String → Option Tree)
      (found : g.get? id = some node) (on : node.enabled = true) (known : form? node = some form)
      (empty : ∀ slot, node.values.target? slot = none → slots slot = none)
      (held : ∀ slot child, node.values.target? slot = some child →
        Grows g names child (slots slot)) : Grows g names id (some (form.tree names slots))

/-- A node grows into one tree. -/
theorem Grows.unique {g : Graph} {names : String → Word} {id : NodeId} {first second : Option Tree}
    (grows : Grows g names id first) (again : Grows g names id second) : first = second := by
  induction grows generalizing second with
  | disabled found off =>
      cases again with
      | disabled => rfl
      | enabled slots foundAgain on =>
          obtain rfl := Option.some.inj (found.symm.trans foundAgain)
          rw [off] at on
          cases on
  | @enabled id node form slots found on known empty held inductionHypothesis =>
      cases again with
      | disabled foundAgain off =>
          obtain rfl := Option.some.inj (found.symm.trans foundAgain)
          rw [off] at on
          cases on
      | enabled slotsAgain foundAgain _ knownAgain emptyAgain heldAgain =>
          obtain rfl := Option.some.inj (found.symm.trans foundAgain)
          obtain rfl := Option.some.inj (known.symm.trans knownAgain)
          have same : slots = slotsAgain := by
            funext slot
            cases hangs : node.values.target? slot with
            | none => rw [empty slot hangs, emptyAgain slot hangs]
            | some child =>
                exact inductionHypothesis slot child hangs (heldAgain slot child hangs)
          rw [same]

end BlockVerilog.Reading
