import BlockVerilog.Proofs.Reading.Generation

/-!
Comparisons as the language reads them.

The precedence table gives the case equalities a level of their own, looser than that of the other
equalities; the language has all four on one level, from the left. So an equality that hangs on the
right of a case equality is printed bare and read the other way: `a === (b == c)` comes out as
`a === b == c`, which is `(a === b) == c`. Nothing else changes its nesting.
-/

namespace BlockVerilog.Reading

/-- How tight comparisons bind in the language, tightest first. -/
inductive Rank where
  | operand
  | relation
  | equality
  deriving DecidableEq

/-- The rank of an operator in the language, if it compares. -/
def Infix.rank? : Infix → Option Rank
  | less | lessOrEqual | greater | greaterOrEqual => some .relation
  | equal | notEqual | caseEqual | caseNotEqual => some .equality
  | _ => none

/-- Tokens that the language reads as a comparison of a rank, and the tree that they stand for. -/
inductive Comparison : Rank → List Token → Tree → Prop
  | word (word : Word) : Comparison .operand [.word word] (.atom word)
  | parens {inner : List Token} {tree : Tree} (comparison : Comparison .equality inner tree) :
      Comparison .operand (.opening :: inner ++ [.closing]) tree
  | relation {op : Infix} {left right : List Token} {first second : Tree}
      (ranked : op.rank? = some .relation) (front : Comparison .relation left first)
      (back : Comparison .operand right second) :
      Comparison .relation (left ++ .between op :: right) (.binary op first second)
  | equality {op : Infix} {left right : List Token} {first second : Tree}
      (ranked : op.rank? = some .equality) (front : Comparison .equality left first)
      (back : Comparison .relation right second) :
      Comparison .equality (left ++ .between op :: right) (.binary op first second)
  /-- What binds tighter is a comparison as well. -/
  | ofOperand {inner : List Token} {tree : Tree} (operand : Comparison .operand inner tree) :
      Comparison .relation inner tree
  | ofRelation {inner : List Token} {tree : Tree} (relation : Comparison .relation inner tree) :
      Comparison .equality inner tree

/-! ### One reading only -/

/-- A left operand and its operator, if there are any, in front of a right operand. -/
def attach : Option (Tree × Infix) → Tree → Tree
  | none, tree => tree
  | some (left, op), tree => .binary op left tree

/-- What was read and waits for a right operand, inside the same parentheses. -/
structure Pending where
  equality : Option (Tree × Infix)
  relation : Option (Tree × Infix)

namespace Pending

def nothing : Pending := ⟨none, none⟩

/-- The comparison that ends with an operand. -/
def close (pending : Pending) (last : Tree) : Tree :=
  attach pending.equality (attach pending.relation last)

end Pending

/-- Read a comparison token by token: what waits outside of parentheses and inside, and the operand
that was read last. -/
def readTokens : List Token → List Pending → Pending → Option Tree → Option Tree
  | .word word :: rest, outside, pending, none =>
      readTokens rest outside pending (some (.atom word))
  | .opening :: rest, outside, pending, none => readTokens rest (pending :: outside) .nothing none
  | .between op :: rest, outside, pending, some operand =>
      match op.rank? with
      | some .relation =>
          readTokens rest outside ⟨pending.equality, some (attach pending.relation operand, op)⟩
            none
      | some .equality => readTokens rest outside ⟨some (pending.close operand, op), none⟩ none
      | _ => none
  | .closing :: rest, pending :: outside, inside, some operand =>
      readTokens rest outside pending (some (inside.close operand))
  | [], [], pending, some operand => some (pending.close operand)
  | _, _, _, _ => none

/-- How a comparison of a rank is read, whatever is around it that may be around it. -/
def IsTakenUp : Rank → List Token → Tree → Prop
  | .operand, tokens, tree => ∀ rest outside pending,
      readTokens (tokens ++ rest) outside pending none = readTokens rest outside pending (some tree)
  | .relation, tokens, tree => ∃ relation last, attach relation last = tree ∧
      ∀ rest outside equality, readTokens (tokens ++ rest) outside ⟨equality, none⟩ none =
        readTokens rest outside ⟨equality, relation⟩ (some last)
  | .equality, tokens, tree => ∃ pending last, pending.close last = tree ∧
      ∀ rest outside, readTokens (tokens ++ rest) outside .nothing none =
        readTokens rest outside pending (some last)

theorem Comparison.isTakenUp {rank : Rank} {tokens : List Token} {tree : Tree}
    (comparison : Comparison rank tokens tree) : IsTakenUp rank tokens tree := by
  induction comparison with
  | word word => exact fun rest outside pending => rfl
  | @parens inner tree _ inductionHypothesis =>
      obtain ⟨pending, last, rfl, reads⟩ := inductionHypothesis
      intro rest outside around
      have enters : readTokens (.opening :: inner ++ [.closing] ++ rest) outside around none =
          readTokens (inner ++ .closing :: rest) (around :: outside) .nothing none := by
        simp [readTokens]
      rw [enters, reads]
      rfl
  | @relation op left right first second ranked _ _ before behind =>
      obtain ⟨relation, last, rfl, reads⟩ := before
      refine ⟨some (attach relation last, op), second, rfl, fun rest outside equality => ?_⟩
      rw [List.append_assoc, reads, List.cons_append, readTokens, ranked]
      exact behind rest outside _
  | @equality op left right first second ranked _ _ before behind =>
      obtain ⟨pending, last, rfl, reads⟩ := before
      obtain ⟨relation, lastBehind, rfl, readsOn⟩ := behind
      refine ⟨⟨some (pending.close last, op), relation⟩, lastBehind, rfl, fun rest outside => ?_⟩
      rw [List.append_assoc, reads, List.cons_append, readTokens, ranked]
      exact readsOn rest outside _
  | @ofOperand inner tree _ inductionHypothesis =>
      exact ⟨none, tree, rfl, fun rest outside equality => inductionHypothesis rest outside _⟩
  | ofRelation _ inductionHypothesis =>
      obtain ⟨relation, last, rfl, reads⟩ := inductionHypothesis
      exact ⟨⟨none, relation⟩, last, rfl, fun rest outside => reads rest outside none⟩

/-- No tokens stand for two comparisons. -/
theorem Comparison.unique {tokens : List Token} {first second : Tree}
    (comparison : Comparison .equality tokens first)
    (again : Comparison .equality tokens second) : first = second := by
  have reads : ∀ {tree : Tree}, Comparison .equality tokens tree →
      readTokens tokens [] .nothing none = some tree := by
    intro tree comparison
    obtain ⟨pending, last, rfl, read⟩ := comparison.isTakenUp
    have whole := read [] []
    rwa [List.append_nil] at whole
  exact Option.some.inj ((reads comparison).symm.trans (reads again))

/-! ### How printed comparisons are read -/

namespace Tree

/-- Operators that compare, over names and literals. -/
def IsComparison : Tree → Prop
  | atom _ => True
  | binary op left right => op.rank?.isSome = true ∧ left.IsComparison ∧ right.IsComparison
  | _ => False

/-- How the language reads a tree that is printed bare, behind an equality of either kind or at the
beginning. -/
def readAfter : Option (Tree × Infix) → Tree → Tree
  | front, binary op left right =>
      match op.level with
      | .equality => binary op (readAfter front left) (readAfter none right)
      | .caseEquality => attach front (readAfter (some (readAfter none left, op)) right)
      | _ => attach front (binary op (readAfter none left) (readAfter none right))
  | front, tree => attach front tree

/-- How the language reads a printed tree. -/
def standardReading (tree : Tree) : Tree := tree.readAfter none

section

variable {op : Infix} (front : Option (Tree × Infix)) (left right : Tree)

theorem readAfter_of_relational (level : op.level = .relational) :
    readAfter front (binary op left right) =
      attach front (binary op left.standardReading right.standardReading) := by
  rw [readAfter, level]
  rfl

theorem readAfter_of_equality (level : op.level = .equality) :
    readAfter front (binary op left right) =
      binary op (readAfter front left) right.standardReading := by
  rw [readAfter, level]
  rfl

theorem readAfter_of_caseEquality (level : op.level = .caseEquality) :
    readAfter front (binary op left right) =
      attach front (readAfter (some (left.standardReading, op)) right) := by
  rw [readAfter, level]
  rfl

end

/-- No case equality has an equality of the other kind on its right. -/
def KeepsNesting : Tree → Prop
  | binary op left right => (op.level = .caseEquality → right.level ≠ .equality) ∧
      left.KeepsNesting ∧ right.KeepsNesting
  | _ => True

/-- The rank of the outermost operator. -/
def rank : Tree → Rank
  | binary op _ _ => op.rank?.getD .operand
  | _ => .operand

section

variable {op : Infix} {left right : Tree}

theorem tokens_binary : (binary op left right).tokens =
    left.tokensWithin op.level ++ .between op :: right.tokensWithin op.right := rfl

theorem level_binary : (binary op left right).level = op.level := rfl

theorem rank_binary {own : Rank} (ranked : op.rank? = some own) :
    (binary op left right).rank = own := by
  rw [rank, ranked]
  rfl

end

end Tree

/-- The levels of the operators that compare, by their ranks. -/
theorem Infix.levels_of_compares {op : Infix} (compares : op.rank?.isSome = true) :
    (op.rank? = some .relation ∧ op.level = .relational ∧ op.right = .shift) ∨
      (op.rank? = some .equality ∧ op.level = .equality ∧ op.right = .relational) ∨
      (op.rank? = some .equality ∧ op.level = .caseEquality ∧ op.right = .equality) := by
  cases op <;> first | decide | cases compares

namespace Comparison

variable {rank : Rank} {tokens : List Token} {tree : Tree}

theorem loosest (comparison : Comparison rank tokens tree) : Comparison .equality tokens tree := by
  cases rank with
  | operand => exact .ofRelation (.ofOperand comparison)
  | relation => exact .ofRelation comparison
  | equality => exact comparison

theorem of_ne_equality (comparison : Comparison rank tokens tree) (tight : rank ≠ .equality) :
    Comparison .relation tokens tree := by
  cases rank with
  | operand => exact .ofOperand comparison
  | relation => exact comparison
  | equality => exact absurd rfl tight

end Comparison

namespace Tree

variable {tree : Tree}

theorem rank_of_level (comparison : tree.IsComparison) :
    (tree.level ≤ .shift → tree.rank = .operand) ∧
      (tree.level ≤ .relational → tree.rank ≠ .equality) := by
  cases tree with
  | atom word => exact ⟨fun _ => rfl, fun _ => Rank.noConfusion⟩
  | binary op left right =>
      simp only [level, rank]
      obtain ⟨ranked, level, _⟩ | ⟨ranked, level, _⟩ | ⟨ranked, level, _⟩ :=
        Infix.levels_of_compares comparison.1 <;>
      · rw [ranked, level]
        decide
  | _ => cases comparison

/-- A comparison in a place that takes it bare only if its rank fits there. -/
theorem comparison_within {required : Precedence} {rank : Rank} {reading : Tree}
    (alone : Comparison tree.rank tree.tokens reading)
    (bare : tree.level ≤ required → Comparison rank tree.tokens reading) :
    Comparison rank (tree.tokensWithin required) reading := by
  by_cases fits : tree.level ≤ required
  · rw [(within_of_le fits).2]
    exact bare fits
  · rw [(within_of_not_le fits).2]
    have enclosed : Comparison .operand (.opening :: tree.tokens ++ [.closing]) reading :=
      .parens alone.loosest
    cases rank with
    | operand => exact enclosed
    | relation => exact .ofOperand enclosed
    | equality => exact enclosed.loosest

/-- How the language takes up a printed tree by itself, and behind an equality of either kind. -/
structure IsStandard (tree : Tree) : Prop where
  alone : Comparison tree.rank tree.tokens tree.standardReading
  behind : ∀ (op : Infix) (before : List Token) (left : Tree), op.rank? = some .equality →
    Comparison .equality before left →
    Comparison .equality (before ++ .between op :: tree.tokensWithin .equality)
      (readAfter (some (left, op)) tree)

namespace IsStandard

theorem equalityWithin (standard : tree.IsStandard) (required : Precedence) :
    Comparison .equality (tree.tokensWithin required) tree.standardReading :=
  comparison_within standard.alone fun _ => standard.alone.loosest

theorem relationWithin (standard : tree.IsStandard) (comparison : tree.IsComparison) :
    Comparison .relation (tree.tokensWithin .relational) tree.standardReading :=
  comparison_within standard.alone fun bare =>
    standard.alone.of_ne_equality ((rank_of_level comparison).2 bare)

theorem operandWithin (standard : tree.IsStandard) (comparison : tree.IsComparison) :
    Comparison .operand (tree.tokensWithin .shift) tree.standardReading :=
  comparison_within standard.alone fun bare =>
    (rank_of_level comparison).1 bare ▸ standard.alone

end IsStandard

section

variable {op : Infix} {left right : Tree} (onLeft : left.IsStandard) (onRight : right.IsStandard)
include onLeft onRight

/-- A relation is one operand of an equality. -/
theorem isStandard_relation (compareLeft : left.IsComparison) (compareRight : right.IsComparison)
    (ranked : op.rank? = some .relation) (level : op.level = .relational)
    (tight : op.right = .shift) : (binary op left right).IsStandard := by
  have alone : Comparison .relation (binary op left right).tokens
      (binary op left.standardReading right.standardReading) := by
    rw [tokens_binary, level, tight]
    exact .relation ranked (onLeft.relationWithin compareLeft) (onRight.operandWithin compareRight)
  constructor
  case alone =>
    rw [rank_binary ranked, standardReading, readAfter_of_relational _ _ _ level]
    exact alone
  case behind =>
    intro outer before outerLeft outerRanked front
    have bare : (binary op left right).level ≤ .equality := by
      rw [level_binary, level]
      decide
    rw [(within_of_le bare).2, readAfter_of_relational _ _ _ level]
    exact .equality outerRanked front alone

/-- An equality goes on with what is in front of it. -/
theorem isStandard_equality (compareRight : right.IsComparison)
    (ranked : op.rank? = some .equality) (level : op.level = .equality)
    (tight : op.right = .relational) : (binary op left right).IsStandard := by
  have back := onRight.relationWithin compareRight
  constructor
  case alone =>
    rw [rank_binary ranked, standardReading, readAfter_of_equality _ _ _ level, tokens_binary,
      level, tight]
    exact .equality ranked (onLeft.equalityWithin _) back
  case behind =>
    intro outer before outerLeft outerRanked front
    have bare : (binary op left right).level ≤ .equality := by
      rw [level_binary, level]
      decide
    rw [(within_of_le bare).2, readAfter_of_equality _ _ _ level, tokens_binary, level, tight]
    have longer := onLeft.behind outer before outerLeft outerRanked front
    simpa using Comparison.equality ranked longer back

/-- A case equality goes on with its right operand, and is put in parentheses itself. -/
theorem isStandard_caseEquality (ranked : op.rank? = some .equality)
    (level : op.level = .caseEquality) (tight : op.right = .equality) :
    (binary op left right).IsStandard := by
  have alone : Comparison .equality (binary op left right).tokens
      (readAfter (some (left.standardReading, op)) right) := by
    rw [tokens_binary, tight]
    exact onRight.behind op _ _ ranked (onLeft.equalityWithin op.level)
  constructor
  case alone =>
    rw [rank_binary ranked, standardReading, readAfter_of_caseEquality _ _ _ level]
    exact alone
  case behind =>
    intro outer before outerLeft outerRanked front
    have loose : ¬ (binary op left right).level ≤ .equality := by
      rw [level_binary, level]
      decide
    rw [(within_of_not_le loose).2, readAfter_of_caseEquality _ _ _ level]
    exact .equality outerRanked front (.ofOperand (.parens alone))

end

theorem isStandard (comparison : tree.IsComparison) : tree.IsStandard := by
  induction tree with
  | atom word =>
      refine ⟨.word word, fun op before left ranked front => ?_⟩
      exact .equality ranked front (.ofOperand (.word word))
  | binary op left right first second =>
      obtain ⟨compares, compareLeft, compareRight⟩ := comparison
      have onLeft := first compareLeft
      have onRight := second compareRight
      obtain ⟨ranked, level, tight⟩ | ⟨ranked, level, tight⟩ | ⟨ranked, level, tight⟩ :=
        Infix.levels_of_compares compares
      · exact isStandard_relation onLeft onRight compareLeft compareRight ranked level tight
      · exact isStandard_equality onLeft onRight compareRight ranked level tight
      · exact isStandard_caseEquality onLeft onRight ranked level tight
  | _ => cases comparison

/-- The tokens of a printed comparison have the standard reading and no other. -/
theorem comparison_tokens_iff (comparison : tree.IsComparison) (other : Tree) :
    Comparison .equality tree.tokens other ↔ other = tree.standardReading := by
  have read := (isStandard comparison).alone.loosest
  exact ⟨fun again => again.unique read, fun same => same ▸ read⟩

/-! ### Which comparisons keep their nesting -/

/-- Only an equality of the tighter kind takes up what is in front of it. -/
theorem readAfter_of_level_ne (front : Option (Tree × Infix)) (apart : tree.level ≠ .equality)
    (comparison : tree.IsComparison) :
    readAfter front tree = attach front tree.standardReading := by
  cases tree with
  | atom word => rfl
  | binary op left right =>
      obtain ⟨_, level, _⟩ | ⟨_, level, _⟩ | ⟨_, level, _⟩ :=
        Infix.levels_of_compares comparison.1
      · rw [standardReading, readAfter_of_relational _ _ _ level,
          readAfter_of_relational _ _ _ level]
        rfl
      · exact absurd level apart
      · rw [standardReading, readAfter_of_caseEquality _ _ _ level,
          readAfter_of_caseEquality _ _ _ level]
        rfl
  | _ => cases comparison

/-- An equality of the tighter kind stays outermost, whatever it takes up. -/
theorem level_readAfter (front : Option (Tree × Infix)) (same : tree.level = .equality) :
    (readAfter front tree).level = .equality := by
  cases tree with
  | binary op left right =>
      rw [readAfter_of_equality _ _ _ same]
      exact same
  | _ => cases same

/-- A comparison is read back as it is exactly if no case equality has an equality of the other kind
on its right. -/
theorem standardReading_eq_iff (comparison : tree.IsComparison) :
    tree.standardReading = tree ↔ tree.KeepsNesting := by
  induction tree with
  | atom word => exact ⟨fun _ => trivial, fun _ => rfl⟩
  | binary op left right first second =>
      obtain ⟨compares, compareLeft, compareRight⟩ := comparison
      have operands : binary op left.standardReading right.standardReading =
          binary op left right ↔ left.KeepsNesting ∧ right.KeepsNesting := by
        rw [binary.injEq, first compareLeft, second compareRight]
        exact ⟨And.right, fun keeps => ⟨rfl, keeps⟩⟩
      obtain ⟨_, level, _⟩ | ⟨_, level, _⟩ | ⟨_, level, _⟩ := Infix.levels_of_compares compares
      · rw [standardReading, readAfter_of_relational _ _ _ level, KeepsNesting, level]
        simpa [attach] using operands
      · rw [standardReading, readAfter_of_equality _ _ _ level, KeepsNesting, level]
        change binary op left.standardReading right.standardReading = _ ↔ _
        simpa using operands
      · rw [standardReading, readAfter_of_caseEquality _ _ _ level, KeepsNesting]
        by_cases same : right.level = .equality
        · refine ⟨fun read => ?_, fun keeps => absurd same (keeps.1 level)⟩
          have outermost := level_readAfter (some (left.standardReading, op)) same
          rw [attach] at read
          rw [read, Tree.level, level] at outermost
          cases outermost
        · rw [readAfter_of_level_ne _ same compareRight]
          simpa [attach, same] using operands
  | _ => cases comparison

end Tree

/-! ### Generated comparisons -/

open BlockVerilog.Graph Pass

variable {gen : Generator} {id : NodeId} {node : Node} {state : PassState}

/-- The expression of a node is a text that the language takes up whole as one comparison. That is
the tree that the node grows into exactly if no case equality has an equality of the other kind on
its right. -/
structure ReadsAsComparison (gen : Generator) (id : NodeId) (state after : PassState)
    (text : String) (level : Precedence) (tree : Tree) (tokens : List Token) : Prop where
  printed : (gen.whole.expression id).outcome state = (.ok (some (text, level)), after)
  grows : Grows gen.graph (nameIn after) id (some tree)
  lexed : lex text.toList = some tokens
  read : ∀ other, Comparison .equality tokens other ↔ other = tree.standardReading
  nests : tree.standardReading = tree ↔ tree.KeepsNesting

/-- A case equality of a variable and an equality. -/
def caseComparison : Generator where
  graph :=
    { nodes := #[
        { Node.blank "logic_compare" .expression with
          fields := .ofList [("OP", .text "CASE_EQ")]
          values := .ofList [("A", some 1), ("B", some 2)] },
        { Node.blank "variables_get" .expression with
          key := "a", fields := .ofList [("VAR", .text "a")] },
        { Node.blank "logic_compare" .expression with
          key := "same", fields := .ofList [("OP", .text "EQ")]
          values := .ofList [("A", some 3), ("B", some 4)] },
        { Node.blank "variables_get" .expression with
          key := "b", fields := .ofList [("VAR", .text "b")] },
        { Node.blank "variables_get" .expression with
          key := "c", fields := .ofList [("VAR", .text "c")] }]
      vars := [] }
  table := .builtin
  config := .standard

theorem caseComparison_isExpression : IsExpression caseComparison.graph 0 := by
  have valid : caseComparison.graph.validate [0] = .ok () := by cbv
  exact .of_wellFormed (validate_eq_ok_iff.mp valid) (by decide) (by decide)

theorem caseComparison_grows {names : String → Word} {tree : Tree}
    (grows : Grows caseComparison.graph names 0 (some tree)) :
    tree = .binary .caseEqual (.atom (names "a"))
      (.binary .equal (.atom (names "b")) (.atom (names "c"))) :=
  Option.some.inj (grows.unique (caseComparison_isExpression.grows (extent_le_size 0) names))

theorem caseComparison_compares {names : String → Word} {tree : Tree}
    (grows : Grows caseComparison.graph names 0 (some tree)) : tree.IsComparison := by
  rw [caseComparison_grows grows]
  exact ⟨rfl, trivial, rfl, trivial, trivial⟩

example : ((caseComparison.whole.expression 0).outcome (.initial .standard)).1 =
    .ok (some ("a === b == c", .caseEquality)) := by
  cbv

end BlockVerilog.Reading
