import BlockVerilog.Proofs.Number.SizedLiteral
import BlockVerilog.Proofs.Pass.Layout
import BlockVerilog.Proofs.Pass.Running
import BlockVerilog.Proofs.Reading.Generation

/-!
Declared widths.

A width that is an integer is reduced by one as a number, any other as a text. The text is asked for
as the left operand of a subtraction, so that what is written behind it takes all of it.
-/

namespace BlockVerilog

open Numeral Text

/-! ### Integers of 64 bits -/

/-- An optional sign and decimal digits, which write a number. -/
inductive IsWhole : List Char → Int → Prop
  | plain {text : List Char} {n : Nat} (plain : IsPlain text n) : IsWhole text n
  | minus {digits : List Char} {n : Nat} (nonempty : digits ≠ [])
      (read : read? 10 digits = some n) : IsWhole ('-' :: digits) (-n)

/-- The range of an integer of 64 bits in two's complement. -/
def InWord (n : Int) : Prop := -2 ^ 63 ≤ n ∧ n < 2 ^ 63

/-- What a sign in front of digits makes of their number. -/
theorem isWhole_iff {text : List Char} {n : Int} :
    IsWhole text n ↔ ∃ m : Nat, digits? (cutSign text).2 = some m ∧
      n = if (cutSign text).1 then -(m : Int) else m := by
  constructor
  · rintro (⟨⟨nonempty, read⟩ | ⟨nonempty, read⟩⟩ | ⟨nonempty, read⟩)
    · have unsigned := IsDigits.unsigned ⟨nonempty, (read?_ten.mp read).1⟩
      rw [cutSign_of_ne unsigned.1 unsigned.2]
      exact ⟨_, digits?_eq_some_iff.mpr ⟨nonempty, read⟩, rfl⟩
    · exact ⟨_, digits?_eq_some_iff.mpr ⟨nonempty, read⟩, rfl⟩
    · exact ⟨_, digits?_eq_some_iff.mpr ⟨nonempty, read⟩, rfl⟩
  · rintro ⟨m, given, rfl⟩
    rw [digits?_eq_some_iff] at given
    unfold cutSign at given ⊢
    split at given
    next => exact .minus given.1 given.2
    next => exact .plain (.plus given.1 given.2)
    next => exact .plain (.bare given.1 given.2)

/-- A text is read as an integer exactly if it writes one of 64 bits. -/
theorem parseInt_eq_some_iff {text : List Char} {n : Int} :
    parseInt text = some n ↔ IsWhole text n ∧ InWord n := by
  rw [isWhole_iff, parseInt, InWord]
  obtain ⟨negative, unsigned⟩ := cutSign text
  have bound : Nat.pow 2 63 = 2 ^ 63 := rfl
  dsimp only
  rw [bound]
  cases digits? unsigned with
  | none => simp
  | some m =>
      simp only [Option.some.injEq, exists_eq_left']
      cases negative with
      | true =>
          rw [if_pos rfl, if_pos rfl, Option.ite_none_right_eq_some, Option.some.injEq]
          omega
      | false =>
          rw [if_neg Bool.false_ne_true, if_neg Bool.false_ne_true, Option.ite_none_right_eq_some,
            Option.some.injEq]
          omega

/-! ### Texts of trees -/

theorem Text.trimmed_of_solid {text : String} (visible : solid text = true) :
    trimmed text = text := by
  have front : text.toList.dropWhile isBlank = text.toList := by
    obtain ⟨c, rest, spelled, first⟩ := exists_cons_of_opens (opens_of_solid visible)
    rw [spelled, List.dropWhile_cons_of_neg (by simp [first])]
  have back : dropWhileEnd isBlank text.toList = text.toList := by
    obtain ⟨body, c, spelled, last⟩ := exists_concat_of_closes (closes_of_solid visible)
    rw [spelled, dropWhileEnd_append]
    simp [dropWhileEnd, last]
  rw [trimmed, trim, front, back, String.ofList_toList]

namespace Reading

namespace Tree

theorem solid_text (tree : Tree) : solid tree.text = true := by
  induction tree with
  | atom word => exact Handlers.solid_of_isWord word.spelled
  | minus word =>
      have visible := Handlers.solid_of_isWord word.spelled
      exact solid_append (by decide) (closes_of_solid visible)
  | negation sign operand inner =>
      have visible := Generator.solid_parenthesize inner operand.level .unary
      cases sign <;> exact solid_append (by decide) (closes_of_solid visible)
  | binary op left right first second =>
      have front := Generator.solid_parenthesize first left.level op.level
      have back := Generator.solid_parenthesize second right.level op.right
      apply solid_append _ (closes_of_solid back)
      simp [opens_append, opens_of_solid front]
  | ternary condition yes no first _ third =>
      have front := Generator.solid_parenthesize first condition.level .logicOr
      have back := Generator.solid_parenthesize third no.level .conditional
      apply solid_append _ (closes_of_solid back)
      simp [opens_append, opens_of_solid front]
  | edge side signal inner =>
      have visible := Generator.solid_parenthesize inner signal.level .member
      cases side <;> exact solid_append (by decide) (closes_of_solid visible)
  | select signal index first _ =>
      have front := Generator.solid_parenthesize first signal.level .member
      exact solid_append (by simp [opens_append, opens_of_solid front]) (by decide)
  | concat _ _ _ _ | replicate _ _ _ _ =>
      exact solid_append (by simp [opens_cons, isBlank, blankRanges]) (by decide)

/-- A width as its declaration asks for it. -/
def asWidth (size : Tree) : String := size.within Infix.subtract.level

/-- A width less one. -/
def lessOne (size : Tree) : Tree := .binary .subtract size (.atom .one)

theorem regrouped_lessOne (size : Tree) :
    size.lessOne.regrouped = .binary .subtract size.regrouped (.atom .one) := by
  have groups : ¬ Infix.subtract.chains = true := by decide
  rw [lessOne, regrouped, join, if_neg groups]
  rfl

/-- What is written behind a width is subtracted from all of it. -/
theorem lex_asWidth (size : Tree) :
    lex (size.asWidth ++ "-1").toList = some size.lessOne.tokens := by
  have width := scans_within size.isScanned Infix.subtract.level (ends_cons '-' (by decide) ['1'])
  have sign : Scans ['-', '1'] [.between .subtract] ['1'] :=
    scans_mark '-' (.between .subtract) (by decide) (by simp [lengthening])
  have one : Scans (Word.one.text.toList ++ []) [.word .one] [] := scans_word .one parted_nil
  have scanned := (width.trans (sign.trans one)).finish
  rw [String.toList_append]
  exact scanned

end Tree

/-- What a width makes of the range of a declaration: an integer is reduced by one, where it is more
than one; anything else is read back as a subtraction from all of it. -/
inductive Ranges (size : Tree) : String → Prop where
  | single {n : Int} (integer : IsWhole size.asWidth.toList n) (inWord : InWord n) (one : n ≤ 1) :
      Ranges size ""
  | counted {n : Int} {last : Nat} (integer : IsWhole size.asWidth.toList n) (inWord : InWord n)
      (several : 1 < n) (less : (last : Int) = n - 1) (lastInWord : InWord last) :
      Ranges size ("[" ++ toString last ++ ":0] ")
  | computed {expression : String} {tokens : List Token} {minuend : Tree}
      (other : ∀ n, IsWhole size.asWidth.toList n → ¬ InWord n)
      (spelled : expression = size.asWidth ++ "-1") (lexed : lex expression.toList = some tokens)
      (only : ∀ tree, Phrase .none tokens tree ↔ tree = .binary .subtract minuend (.atom .one))
      (value : ∀ (width : Nat) (meaning : Meaning width),
        meaning.value minuend = meaning.value size) :
      Ranges size ("[" ++ expression ++ ":0] ")

/-- The range in front of the name, with the blank behind it. -/
def rangeText (size : Option String) : String :=
  ((size.bind Handlers.bitRange?).map fun range => range ++ " ").getD ""

theorem ranges_asWidth (size : Tree) : Ranges size (rangeText (some size.asWidth)) := by
  have visible : solid size.asWidth = true := Generator.solid_parenthesize size.solid_text _ _
  have kept : trimmed size.asWidth = size.asWidth := trimmed_of_solid visible
  have nonempty : size.asWidth ≠ "" := fun empty => by
    rw [empty] at visible
    cases visible
  rw [rangeText, Option.bind_some, Handlers.bitRange?, kept]
  cases read : parseInt size.asWidth.toList with
  | some n =>
      obtain ⟨integer, inWord⟩ := parseInt_eq_some_iff.mp read
      by_cases one : n ≤ 1
      · dsimp only
        rw [if_pos one]
        exact .single integer inWord one
      · obtain ⟨last, less⟩ := Int.eq_ofNat_of_zero_le (show 0 ≤ n - 1 by omega)
        have lastInWord : InWord last := by
          unfold InWord at inWord ⊢
          omega
        have spelled : "[" ++ toString (last : Int) ++ ":0]" ++ " " =
            "[" ++ toString last ++ ":0] " := String.append_assoc ..
        dsimp only
        rw [if_neg one, less, Option.map_some, Option.getD_some, spelled]
        exact .counted integer inWord (not_le.mp one) less.symm lastInWord
  | none =>
      have other : ∀ n, IsWhole size.asWidth.toList n → ¬ InWord n := fun n integer inWord => by
        rw [parseInt_eq_some_iff.mpr ⟨integer, inWord⟩] at read
        cases read
      have only : ∀ tree, Phrase .none size.lessOne.tokens tree ↔
          tree = .binary .subtract size.regrouped (.atom .one) := fun tree => by
        rw [size.lessOne.phrase_tokens_iff, Tree.regrouped_lessOne]
      have spelled : "[" ++ size.asWidth ++ "-1:0]" ++ " " =
          "[" ++ (size.asWidth ++ "-1") ++ ":0] " := by
        simp only [← String.toList_inj, String.toList_append, List.append_assoc]
        rfl
      dsimp only
      rw [if_neg nonempty, Option.map_some, Option.getD_some, spelled]
      exact .computed other rfl size.lex_asWidth only fun _ meaning => meaning.value_regrouped size

/-! ### Declarations -/

/-- The kinds that declare a port or net, with the keywords they print. -/
def declarations : List (String × String) :=
  [("input_block", "input"), ("output_block", "output"), ("wire_block", "wire"),
    ("reg_block", "reg"), ("inout_block", "inout"), ("input_simu", "reg"), ("output_simu", "wire")]

theorem get?_of_declares {kind keyword : String} (declares : (kind, keyword) ∈ declarations) :
    HandlerTable.builtin.get? kind = some (Handlers.port keyword) := by
  apply HandlerTable.get?_builtin
  simp only [declarations, List.mem_cons, Prod.mk.injEq, List.not_mem_nil, or_false] at declares
  rcases declares with ⟨rfl, rfl⟩ | ⟨rfl, rfl⟩ | ⟨rfl, rfl⟩ | ⟨rfl, rfl⟩ | ⟨rfl, rfl⟩ |
    ⟨rfl, rfl⟩ | ⟨rfl, rfl⟩ <;> simp [Handlers.builtin]

open Pass

variable {gen : Generator} {id child : NodeId} {node held : Node} {keyword : String}
  {state : PassState}

theorem statement_of_port (found : gen.graph.get? id = some node)
    (registered : gen.table.get? node.kind = some (Handlers.port keyword)) :
    gen.statement id = gen.value gen.whole id "size" Infix.subtract.level >>= fun size =>
      pure (keyword ++ " " ++ rangeText size ++ node.field "NAME" ++ ";\n") := by
  rw [Generator.statement, Generator.statementAt, Generator.node_eq_pure found, pure_bind]
  simp only [registered, Handlers.port]
  rfl

/-- The declaration of a port or net with a size prints the range of its width. -/
theorem declaration_ranges (builtin : gen.table = .builtin) (found : gen.graph.get? id = some node)
    (declares : (node.kind, keyword) ∈ declarations)
    (sized : node.values.target? "size" = some child)
    (foundSize : gen.graph.get? child = some held) (on : held.enabled = true)
    (isExpression : IsExpression gen.graph child) (reached : state.IsReached) :
    ∃ after size range,
      (gen.statement id).outcome state =
        (.ok (keyword ++ " " ++ range ++ node.field "NAME" ++ ";\n"), after) ∧
      Grows gen.graph (nameIn after) child (some size) ∧ Ranges size range := by
  have registered : gen.table.get? node.kind = some (Handlers.port keyword) := by
    rw [builtin]
    exact get?_of_declares declares
  obtain ⟨after, size, printed, grows⟩ :=
    expression_printed builtin foundSize on isExpression reached
  have shown : (gen.value gen.whole id "size" Infix.subtract.level).outcome state =
      (.ok (some size.asWidth), after) := by
    rw [Generator.value_eq found, sized, Generator.heldExpression, outcome_bind_of_ok printed,
      Generator.shown, if_neg size.text_ne_empty]
    rfl
  refine ⟨after, size, rangeText (some size.asWidth), ?_, grows, ranges_asWidth size⟩
  rw [statement_of_port found registered, outcome_bind_of_ok shown]
  rfl

/-- A wire as wide as a power of two. -/
def shiftedWidth : Generator where
  graph :=
    { nodes := #[
        { Node.blank "wire_block" .statement with
          fields := .ofList [("NAME", .text "bus")], values := .ofList [("size", some 1)] },
        { Node.blank "math_arithmetic" .expression with
          key := "width", fields := .ofList [("OP", .text "SHIFT_LEFT")]
          values := .ofList [("A", some 2), ("B", some 3)] },
        { Node.blank "one" .expression with key := "one" },
        { Node.blank "variables_get" .expression with
          key := "depth", fields := .ofList [("VAR", .text "depth")] }]
      vars := [] }
  table := .builtin
  config := .standard

theorem shiftedWidth_ranges :
    ∃ node held, (shiftedWidth.table = .builtin ∧ shiftedWidth.graph.get? 0 = some node ∧
      (node.kind, "wire") ∈ declarations ∧ node.values.target? "size" = some 1 ∧
      shiftedWidth.graph.get? 1 = some held ∧ held.enabled = true ∧
      IsExpression shiftedWidth.graph 1 ∧ (PassState.initial .standard).IsReached) ∧
    ∃ after size range,
      (shiftedWidth.statement 0).outcome (.initial .standard) =
        (.ok ("wire" ++ " " ++ range ++ node.field "NAME" ++ ";\n"), after) ∧
      Grows shiftedWidth.graph (nameIn after) 1 (some size) ∧ Ranges size range := by
  have valid : shiftedWidth.graph.validate [0] = .ok () := by cbv
  have isExpression : IsExpression shiftedWidth.graph 1 :=
    .of_shape (Graph.validate_eq_ok_iff.mp valid) (by decide) rfl rfl
  have declares : ("wire_block", "wire") ∈ declarations := by decide
  exact ⟨_, _, ⟨rfl, rfl, declares, rfl, rfl, rfl, isExpression, .initial .standard⟩,
    declaration_ranges rfl rfl declares rfl rfl rfl isExpression (.initial .standard)⟩

example : ((shiftedWidth.statement 0).outcome (.initial .standard)).1 =
    .ok "wire [(1 << depth)-1:0] bus;\n" := by
  cbv

end Reading

end BlockVerilog
