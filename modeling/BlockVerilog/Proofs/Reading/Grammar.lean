import BlockVerilog.Proofs.Reading.Printed

/-!
The grammar of the precedence table.

Each level of operators between operands is a chain from the left over phrases of the next tighter
level. A printed tree is a phrase of its level, which stands for the tree with its chains grouped to
the left.
-/

namespace BlockVerilog.Reading

/-- Tokens that are a phrase of a level, and the tree that they stand for. -/
inductive Phrase : Precedence → List Token → Tree → Prop
  | atom (word : Word) : Phrase .atomic [.word word] (.atom word)
  | parens {inner : List Token} {tree : Tree} (phrase : Phrase .none inner tree) :
      Phrase .atomic (.opening :: inner ++ [.closing]) tree
  | concat {left right : List Token} {first second : Tree} (front : Phrase .none left first)
      (back : Phrase .none right second) :
      Phrase .atomic (.openBrace :: (left ++ .comma :: (right ++ [.closeBrace])))
        (.concat first second)
  | replicate {left right : List Token} {count value : Tree} (front : Phrase .none left count)
      (back : Phrase .none right value) :
      Phrase .atomic
        (.openBrace :: (left ++ .openBrace :: (right ++ [.closeBrace, .closeBrace])))
        (.replicate count value)
  | select {left right : List Token} {signal index : Tree} (front : Phrase .member left signal)
      (back : Phrase .none right index) :
      Phrase .member (left ++ .openBracket :: (right ++ [.closeBracket])) (.select signal index)
  | minus (word : Word) : Phrase .unary [.between .subtract, .word word] (.minus word)
  | negation (sign : Sign) {inner : List Token} {operand : Tree}
      (phrase : Phrase .unary inner operand) :
      Phrase .unary (.sign sign :: inner) (.negation sign operand)
  | binary (op : Infix) {left right : List Token} {first second : Tree}
      (front : Phrase op.level left first) (back : Phrase op.level.tighter right second) :
      Phrase op.level (left ++ .between op :: right) (.binary op first second)
  | ternary {left middle right : List Token} {condition yes no : Tree}
      (front : Phrase .logicOr left condition) (branch : Phrase .conditional middle yes)
      (back : Phrase .conditional right no) :
      Phrase .conditional (left ++ .question :: (middle ++ .colon :: right))
        (.ternary condition yes no)
  | edge (side : Edge) {inner : List Token} {signal : Tree} (phrase : Phrase .member inner signal) :
      Phrase .none (.edge side :: inner) (.edge side signal)
  /-- What binds tighter is a phrase as well. -/
  | looser {level : Precedence} {inner : List Token} {tree : Tree}
      (phrase : Phrase level.tighter inner tree) : Phrase level inner tree

theorem Phrase.mono {level required : Precedence} {tokens : List Token} {tree : Tree}
    (phrase : Phrase level tokens tree) (binds : level ≤ required) :
    Phrase required tokens tree := by
  obtain ⟨steps, apart⟩ := Nat.exists_eq_add_of_le (Precedence.le_iff_index_le.mp binds)
  clear binds
  induction steps generalizing required with
  | zero =>
      obtain rfl := Precedence.index_injective apart
      exact phrase
  | succ steps inductionHypothesis =>
      refine .looser (inductionHypothesis ?_)
      rw [Precedence.index_tighter]
      omega

namespace Tree

/-- Of another level than that of an operator, a tree is printed next to it as next to a tighter
one. -/
theorem tokensWithin_tighter {tree : Tree} {level : Precedence} (other : tree.level ≠ level) :
    tree.tokensWithin level = tree.tokensWithin level.tighter := by
  have indices : tree.level.index ≠ level.index := fun same =>
    other (Precedence.index_injective same)
  by_cases bare : tree.level ≤ level
  · have tighter : tree.level ≤ level.tighter := by
      rw [Precedence.le_iff_index_le, Precedence.index_tighter]
      have below := Precedence.le_iff_index_le.mp bare
      omega
    rw [(within_of_le bare).2, (within_of_le tighter).2]
  · have loose : ¬ tree.level ≤ level.tighter := by
      rw [Precedence.le_iff_index_le, Precedence.index_tighter]
      rw [Precedence.le_iff_index_le] at bare
      omega
    rw [(within_of_not_le bare).2, (within_of_not_le loose).2]

theorem phrase_within {tree : Tree} (alone : Phrase tree.level tree.tokens tree.regrouped)
    (required : Precedence) : Phrase required (tree.tokensWithin required) tree.regrouped := by
  by_cases bare : tree.level ≤ required
  · rw [(within_of_le bare).2]
    exact alone.mono bare
  · rw [(within_of_not_le bare).2]
    exact (Phrase.parens (alone.mono (le_none _))).mono (atomic_le required)

/-- A printed tree is a phrase by itself, and behind an operator. -/
structure IsPhrase (tree : Tree) : Prop where
  alone : Phrase tree.level tree.tokens tree.regrouped
  behind : ∀ (op : Infix) (before : List Token) (left : Tree), Phrase op.level before left →
    Phrase op.level (before ++ .between op :: tree.tokensWithin op.level)
      (graft op left tree.regrouped)

/-- Behind an operator of another level a tree is one operand. -/
theorem behind_of_level_ne {tree : Tree} (alone : Phrase tree.level tree.tokens tree.regrouped)
    {op : Infix} (other : tree.level ≠ op.level) {before : List Token} {left : Tree}
    (front : Phrase op.level before left) :
    Phrase op.level (before ++ .between op :: tree.tokensWithin op.level)
      (graft op left tree.regrouped) := by
  have stays : graft op left tree.regrouped = binary op left tree.regrouped :=
    graft_of_level_ne (by rwa [level_regrouped])
  rw [stays, tokensWithin_tighter other]
  exact .binary op front (phrase_within alone op.level.tighter)

theorem IsPhrase.of_other_level {tree : Tree}
    (alone : Phrase tree.level tree.tokens tree.regrouped)
    (other : Infix.isLevel tree.level = false) : tree.IsPhrase := by
  refine ⟨alone, fun op before left front => behind_of_level_ne alone (fun same => ?_) front⟩
  rw [same, Infix.isLevel_level] at other
  cases other

/-- A chain of a level is continued by an operator and its right operand. -/
theorem IsPhrase.join {right : Tree} (isPhrase : right.IsPhrase) (op : Infix)
    {before : List Token} {left : Tree} (front : Phrase op.level before left) :
    Phrase op.level (before ++ .between op :: right.tokensWithin op.right)
      (.join op left right.regrouped) := by
  unfold Tree.join
  cases chains : op.chains with
  | true =>
      rw [Infix.right_of_chains chains]
      exact isPhrase.behind op before left front
  | false =>
      rw [Infix.right_of_not_chains chains]
      exact .binary op front (phrase_within isPhrase.alone op.level.tighter)

/-- A printed tree is a phrase of its level that stands for the regrouped tree. -/
theorem isPhrase (tree : Tree) : tree.IsPhrase := by
  induction tree with
  | atom word => exact .of_other_level (.atom word) rfl
  | minus word => exact .of_other_level (.minus word) rfl
  | negation sign operand inner =>
      exact .of_other_level (.negation sign (phrase_within inner.alone .unary)) rfl
  | binary op left right first second =>
      have alone : Phrase (binary op left right).level (binary op left right).tokens
          (binary op left right).regrouped :=
        second.join op (phrase_within first.alone op.level)
      refine ⟨alone, fun outer before outerLeft front => ?_⟩
      by_cases same : op.level = outer.level
      · have bare : (binary op left right).tokensWithin outer.level =
            left.tokensWithin op.level ++ .between op :: right.tokensWithin op.right :=
          (within_of_le (Precedence.le_iff_index_le.mpr (same ▸ Nat.le_refl _))).2
        have continued := second.join op (same ▸ first.behind outer before outerLeft front)
        rw [bare, regrouped, graft_join same]
        simpa [same] using continued
      · exact behind_of_level_ne alone same front
  | ternary condition yes no first second third =>
      exact .of_other_level (.ternary (phrase_within first.alone .logicOr)
        (phrase_within second.alone .conditional) (phrase_within third.alone .conditional))
        rfl
  | edge side signal inner =>
      exact .of_other_level (.edge side (phrase_within inner.alone .member)) rfl
  | select signal index first second =>
      exact .of_other_level (.select (phrase_within first.alone .member)
        (phrase_within second.alone .none)) rfl
  | concat left right first second =>
      exact .of_other_level (.concat (phrase_within first.alone .none)
        (phrase_within second.alone .none)) rfl
  | replicate count value first second =>
      exact .of_other_level (.replicate ((phrase_within first.alone .atomic).mono (le_none _))
        (phrase_within second.alone .none)) rfl

theorem phrase_tokens (tree : Tree) : Phrase .none tree.tokens tree.regrouped :=
  tree.isPhrase.alone.mono (le_none _)

end Tree

end BlockVerilog.Reading
