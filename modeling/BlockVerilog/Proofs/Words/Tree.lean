import Mathlib.Data.List.TakeWhile
import BlockVerilog.Proofs.Identifier
import BlockVerilog.Proofs.Reading.Tree

/-!
Expressions of word operators.

The words bind as tight as the negations, and an operand of the same level stands bare on every
side: a printed tree has no parentheses at all. What is left of a tree in its text is how it reads
from the left, where each negation stands in front of one operand and each word goes on with all
that is before it. `regrouped` is that reading.
-/

namespace BlockVerilog.Words

open Reading (Sign)

/-- The operators that are written as words. -/
inductive Connective where
  | and
  | or
  deriving DecidableEq, Repr

namespace Connective

def text : Connective → String
  | and => "and"
  | or => "or"

def apply : Connective → Bool → Bool → Bool
  | and => Bool.and
  | or => Bool.or

theorem text_injective {first second : Connective} (same : first.text = second.text) :
    first = second := by
  cases first <;> cases second
  case and.and | or.or => rfl
  all_goals exact absurd same (by decide)

theorem apply_assoc (connective : Connective) (first second third : Bool) :
    connective.apply (connective.apply first second) third =
      connective.apply first (connective.apply second third) := by
  cases connective
  case and => exact Bool.and_assoc first second third
  case or => exact Bool.or_assoc first second third

end Connective

inductive Leaf where
  | zero
  | one
  | variable (id : String)
  deriving DecidableEq, Repr

/-- An expression of word operators, as its nodes group it. -/
inductive Tree where
  | leaf (atom : Leaf)
  | negation (sign : Sign) (operand : Tree)
  | binary (connective : Connective) (left right : Tree)
  deriving DecidableEq, Repr

def Leaf.text (names : String → String) : Leaf → String
  | zero => "0"
  | one => "1"
  | .variable id => names id

def Leaf.value (assigned : String → Bool) : Leaf → Bool
  | zero => false
  | one => true
  | .variable id => assigned id

namespace Tree

/-- How a tree is printed. -/
def text (names : String → String) : Tree → String
  | leaf atom => atom.text names
  | negation sign operand => sign.text ++ operand.text names
  | binary connective left right =>
      left.text names ++ " " ++ connective.text ++ " " ++ right.text names

def level : Tree → Precedence
  | leaf _ => .atomic
  | negation _ _ | binary _ _ _ => .unary

/-- The truth value of a tree. -/
def value (assigned : String → Bool) : Tree → Bool
  | leaf atom => atom.value assigned
  | negation _ operand => !operand.value assigned
  | binary connective left right =>
      connective.apply (left.value assigned) (right.value assigned)

/-- The variables that a tree reads. -/
def reads : Tree → List String
  | leaf (.variable id) => [id]
  | leaf _ => []
  | negation _ operand => operand.reads
  | binary _ left right => left.reads ++ right.reads

/-- How many nodes follow each other on the longest way down. -/
def height : Tree → Nat
  | leaf _ => 1
  | negation _ operand => operand.height + 1
  | binary _ left right => max left.height right.height + 1

theorem height_pos (tree : Tree) : 0 < tree.height := by
  cases tree <;> exact Nat.succ_pos _

/-- No word joins operands at the top of a tree. -/
def isOperand : Tree → Bool
  | binary _ _ _ => false
  | _ => true

/-- A sign in front of a text that reads as a tree. -/
def negate (sign : Sign) : Tree → Tree
  | binary connective left right => binary connective (negate sign left) right
  | operand => negation sign operand

/-- A tree and a word in front of a text that reads as a tree. -/
def graft (connective : Connective) (before : Tree) : Tree → Tree
  | binary other left right => binary other (graft connective before left) right
  | operand => binary connective before operand

/-- A tree as its text reads from the left. -/
def regrouped : Tree → Tree
  | leaf atom => leaf atom
  | negation sign operand => negate sign operand.regrouped
  | binary connective left right => graft connective left.regrouped right.regrouped

section

variable (names : String → String)

theorem text_negate (sign : Sign) (tree : Tree) :
    (negate sign tree).text names = sign.text ++ tree.text names := by
  induction tree with
  | binary connective left right inductionHypothesis _ =>
      simp only [negate, text, inductionHypothesis, String.append_assoc]
  | _ => rfl

theorem text_graft (connective : Connective) (before tree : Tree) :
    (graft connective before tree).text names =
      before.text names ++ " " ++ connective.text ++ " " ++ tree.text names := by
  induction tree with
  | binary other left right inductionHypothesis _ =>
      simp only [graft, text, inductionHypothesis, String.append_assoc]
  | _ => rfl

theorem text_regrouped (tree : Tree) : tree.regrouped.text names = tree.text names := by
  induction tree with
  | leaf atom => rfl
  | negation sign operand inner => rw [regrouped, text_negate, inner, text]
  | binary connective left right first second =>
      rw [regrouped, text_graft, first, second, text]

end

theorem reads_negate (sign : Sign) (tree : Tree) :
    (negate sign tree).reads = tree.reads := by
  induction tree with
  | binary connective left right inductionHypothesis _ =>
      simp only [negate, reads, inductionHypothesis]
  | _ => rfl

theorem reads_graft (connective : Connective) (before tree : Tree) :
    (graft connective before tree).reads = before.reads ++ tree.reads := by
  induction tree with
  | binary other left right inductionHypothesis _ =>
      simp only [graft, reads, inductionHypothesis, List.append_assoc]
  | _ => rfl

theorem reads_regrouped (tree : Tree) : tree.regrouped.reads = tree.reads := by
  induction tree with
  | leaf atom => rfl
  | negation sign operand inner => rw [regrouped, reads_negate, inner, reads]
  | binary connective left right first second =>
      rw [regrouped, reads_graft, first, second, reads]

/-- Negations stand in front of single operands, and so does each word: a tree that is the reading
of its own text. -/
def IsLeftGrouped : Tree → Prop
  | leaf _ => True
  | negation _ operand => operand.isOperand = true ∧ operand.IsLeftGrouped
  | binary _ left right => right.isOperand = true ∧ left.IsLeftGrouped ∧ right.IsLeftGrouped

theorem isLeftGrouped_negate (sign : Sign) {tree : Tree} (grouped : tree.IsLeftGrouped) :
    (negate sign tree).IsLeftGrouped := by
  induction tree with
  | binary connective left right inductionHypothesis _ =>
      exact ⟨grouped.1, inductionHypothesis grouped.2.1, grouped.2.2⟩
  | _ => exact ⟨rfl, grouped⟩

theorem isLeftGrouped_graft (connective : Connective) {before tree : Tree}
    (first : before.IsLeftGrouped) (second : tree.IsLeftGrouped) :
    (graft connective before tree).IsLeftGrouped := by
  induction tree with
  | binary other left right inductionHypothesis _ =>
      exact ⟨second.1, inductionHypothesis second.2.1, second.2.2⟩
  | _ => exact ⟨rfl, first, second⟩

theorem isLeftGrouped_regrouped (tree : Tree) : tree.regrouped.IsLeftGrouped := by
  induction tree with
  | leaf atom => trivial
  | negation sign operand inner => exact isLeftGrouped_negate sign inner
  | binary connective left right first second => exact isLeftGrouped_graft connective first second

end Tree

/-! ### Texts of left-grouped trees -/

/-- Names that tell variables apart. -/
structure Separates (names : String → String) (ids : List String) : Prop where
  identifier : ∀ id ∈ ids, Identifier.isIdentifier (names id).toList = true
  distinct : ∀ id ∈ ids, ∀ other ∈ ids, names id = names other → id = other

/-- The last blank cuts a text in one way. -/
theorem toList_binary (names : String → String) (connective : Connective) (left right : Tree) :
    ((Tree.binary connective left right).text names).toList =
      (left.text names ++ " " ++ connective.text).toList ++ ' ' :: (right.text names).toList := by
  simp [Tree.text]

theorem binary_injective {names : String → String} {connective other : Connective}
    {left right otherLeft otherRight : Tree} (noBlank : ' ' ∉ (right.text names).toList)
    (noBlankOther : ' ' ∉ (otherRight.text names).toList)
    (same : (Tree.binary connective left right).text names =
      (Tree.binary other otherLeft otherRight).text names) :
    left.text names = otherLeft.text names ∧ connective = other ∧
      right.text names = otherRight.text names := by
  have spelled := congrArg String.toList same
  rw [toList_binary, toList_binary] at spelled
  -- the last blank stands in front of the right operand, the one before it in front of the word
  obtain ⟨fronts, rights⟩ := Numerals.append_mark_inj spelled noBlank noBlankOther
  have cut : ∀ (tree : Tree) (word : Connective),
      (tree.text names ++ " " ++ word.text).toList =
        (tree.text names).toList ++ ' ' :: word.text.toList := by simp
  have noBlankWord : ∀ word : Connective, ' ' ∉ word.text.toList := fun word => by
    cases word <;> decide
  rw [cut, cut] at fronts
  obtain ⟨lefts, words⟩ := Numerals.append_mark_inj fronts (noBlankWord _) (noBlankWord _)
  exact ⟨String.toList_inj.mp lefts, Connective.text_injective (String.toList_inj.mp words),
    String.toList_inj.mp rights⟩

theorem signed_injective {sign otherSign : Sign} {text other : String}
    (same : sign.text ++ text = otherSign.text ++ other) : sign = otherSign ∧ text = other := by
  rw [← String.toList_inj, String.toList_append, String.toList_append] at same
  cases sign <;> cases otherSign
  case logical.logical | bitwise.bitwise =>
    exact ⟨rfl, String.toList_inj.mp (List.append_cancel_left same)⟩
  all_goals exact absurd (List.cons.inj same).1 (by decide)

theorem text_congr {names others : String → String} {tree : Tree}
    (same : ∀ id ∈ tree.reads, names id = others id) : tree.text names = tree.text others := by
  induction tree with
  | leaf atom =>
      cases atom with
      | «variable» id => exact same id List.mem_cons_self
      | _ => rfl
  | negation sign operand inner => rw [Tree.text, inner same, Tree.text]
  | binary connective left right first second =>
      obtain ⟨sameLeft, sameRight⟩ := List.forall_mem_append.mp same
      rw [Tree.text, first sameLeft, second sameRight, Tree.text]

section

variable {names : String → String} {ids : List String} (separates : Separates names ids)
include separates

theorem isWord_leaf {atom : Leaf} (within : (Tree.leaf atom).reads ⊆ ids) :
    (atom.text names).toList ≠ [] ∧
      ∀ c ∈ (atom.text names).toList, Identifier.isWordChar c = true := by
  have digit : ∀ (text : String) (c : Char), text.toList = [c] → Identifier.isWordChar c = true →
      text.toList ≠ [] ∧ ∀ other ∈ text.toList, Identifier.isWordChar other = true := by
    intro text c spelled word
    rw [spelled]
    exact ⟨List.cons_ne_nil c [], fun other listed => List.mem_singleton.mp listed ▸ word⟩
  cases atom with
  | zero => exact digit "0" '0' rfl rfl
  | one => exact digit "1" '1' rfl rfl
  | «variable» id =>
      have identifier := separates.identifier id (within List.mem_cons_self)
      exact ⟨Identifier.ne_nil_of_isIdentifier identifier,
        fun c => Identifier.isWordChar_of_mem identifier⟩

theorem leaf_injective {first second : Leaf} (firstWithin : (Tree.leaf first).reads ⊆ ids)
    (secondWithin : (Tree.leaf second).reads ⊆ ids)
    (same : first.text names = second.text names) : first = second := by
  have noDigit : ∀ id ∈ ids, names id ≠ "0" ∧ names id ≠ "1" := fun id listed => by
    have identifier := separates.identifier id listed
    constructor <;> intro digit <;> rw [digit] at identifier <;> exact absurd identifier (by decide)
  cases first <;> cases second
  case zero.zero | one.one => rfl
  case zero.one | one.zero => exact absurd same (by simp [Leaf.text])
  case variable.variable id other =>
    exact congrArg Leaf.variable (separates.distinct id (firstWithin List.mem_cons_self) other
      (secondWithin List.mem_cons_self) same)
  case variable.zero id => exact absurd same (noDigit id (firstWithin List.mem_cons_self)).1
  case variable.one id => exact absurd same (noDigit id (firstWithin List.mem_cons_self)).2
  case zero.variable id => exact absurd same.symm (noDigit id (secondWithin List.mem_cons_self)).1
  case one.variable id => exact absurd same.symm (noDigit id (secondWithin List.mem_cons_self)).2

theorem text_ne_empty {tree : Tree} (within : tree.reads ⊆ ids) :
    tree.text names ≠ "" := by
  intro empty
  rw [← String.toList_inj] at empty
  cases tree with
  | leaf atom => exact (isWord_leaf separates within).1 empty
  | negation sign operand => cases sign <;> simp [Tree.text, Sign.text] at empty
  | binary connective left right => simp [Tree.text] at empty

theorem leaf_text_ne_negation_text {atom : Leaf} (within : (Tree.leaf atom).reads ⊆ ids)
    (sign : Sign) (operand : Tree) :
    (Tree.leaf atom).text names ≠ (Tree.negation sign operand).text names := by
  intro same
  obtain ⟨_, word⟩ := isWord_leaf separates within
  have spelled : (atom.text names).toList = sign.text.toList ++ (operand.text names).toList :=
    (congrArg String.toList same).trans String.toList_append
  rw [spelled] at word
  cases sign with
  | logical => exact absurd (word '!' List.mem_cons_self) (by decide)
  | bitwise => exact absurd (word '~' List.mem_cons_self) (by decide)

theorem operand_injective {first second : Tree} (firstGrouped : first.IsLeftGrouped)
    (secondGrouped : second.IsLeftGrouped) (firstOperand : first.isOperand = true)
    (secondOperand : second.isOperand = true) (firstWithin : first.reads ⊆ ids)
    (secondWithin : second.reads ⊆ ids) (same : first.text names = second.text names) :
    first = second := by
  induction first generalizing second with
  | leaf atom =>
      cases second with
      | leaf other =>
          exact congrArg Tree.leaf (leaf_injective separates firstWithin secondWithin same)
      | negation sign operand =>
          exact absurd same (leaf_text_ne_negation_text separates firstWithin sign operand)
      | binary => cases secondOperand
  | negation sign operand inductionHypothesis =>
      cases second with
      | leaf other =>
          exact absurd same.symm (leaf_text_ne_negation_text separates secondWithin sign operand)
      | negation otherSign other =>
          obtain ⟨rfl, sameInner⟩ := signed_injective same
          exact congrArg (Tree.negation sign) (inductionHypothesis firstGrouped.2 secondGrouped.2
            firstGrouped.1 secondGrouped.1 firstWithin secondWithin sameInner)
      | binary => cases secondOperand
  | binary => cases firstOperand

theorem blank_not_mem_operand {tree : Tree} (grouped : tree.IsLeftGrouped)
    (operand : tree.isOperand = true) (within : tree.reads ⊆ ids) :
    ' ' ∉ (tree.text names).toList := by
  induction tree with
  | leaf atom =>
      intro blank
      exact absurd ((isWord_leaf separates within).2 ' ' blank) (by decide)
  | negation sign inner inductionHypothesis =>
      have noBlank := inductionHypothesis grouped.2 grouped.1 within
      rw [Tree.text, String.toList_append, List.mem_append, not_or]
      exact ⟨by cases sign <;> decide, noBlank⟩
  | binary => cases operand

theorem operand_text_ne_binary_text {operand : Tree} (grouped : operand.IsLeftGrouped)
    (single : operand.isOperand = true) (within : operand.reads ⊆ ids)
    (connective : Connective) (left right : Tree) :
    operand.text names ≠ (Tree.binary connective left right).text names := by
  intro same
  apply blank_not_mem_operand separates grouped single within
  rw [same, toList_binary]
  exact List.mem_append_right _ List.mem_cons_self

theorem text_injective {first second : Tree} (firstGrouped : first.IsLeftGrouped)
    (secondGrouped : second.IsLeftGrouped) (firstWithin : first.reads ⊆ ids)
    (secondWithin : second.reads ⊆ ids) (same : first.text names = second.text names) :
    first = second := by
  induction first generalizing second with
  | leaf | negation =>
      cases second with
      | leaf | negation =>
          exact operand_injective separates firstGrouped secondGrouped rfl rfl firstWithin
            secondWithin same
      | binary connective left right =>
          exact absurd same (operand_text_ne_binary_text separates firstGrouped rfl firstWithin
            connective left right)
  | binary connective left right inductionHypothesis _ =>
      cases second with
      | leaf | negation =>
          exact absurd same.symm (operand_text_ne_binary_text separates secondGrouped rfl
            secondWithin connective left right)
      | binary otherConnective otherLeft otherRight =>
          obtain ⟨rightSingle, leftGrouped, rightGrouped⟩ := firstGrouped
          obtain ⟨otherSingle, otherLeftGrouped, otherRightGrouped⟩ := secondGrouped
          have leftWithin := (List.append_subset.mp firstWithin).1
          have rightWithin := (List.append_subset.mp firstWithin).2
          have otherLeftWithin := (List.append_subset.mp secondWithin).1
          have otherRightWithin := (List.append_subset.mp secondWithin).2
          obtain ⟨lefts, rfl, rights⟩ := binary_injective
            (blank_not_mem_operand separates rightGrouped rightSingle rightWithin)
            (blank_not_mem_operand separates otherRightGrouped otherSingle otherRightWithin) same
          have sameRight := operand_injective separates rightGrouped otherRightGrouped rightSingle
            otherSingle rightWithin otherRightWithin rights
          have sameLeft :=
            inductionHypothesis leftGrouped otherLeftGrouped leftWithin otherLeftWithin lefts
          rw [sameLeft, sameRight]

/-- Two trees have the same text exactly if they read the same from the left. -/
theorem text_eq_iff {first second : Tree} (firstWithin : first.reads ⊆ ids)
    (secondWithin : second.reads ⊆ ids) :
    first.text names = second.text names ↔ first.regrouped = second.regrouped := by
  constructor
  · intro same
    refine text_injective separates first.isLeftGrouped_regrouped second.isLeftGrouped_regrouped
      ?_ ?_ ?_
    · rwa [Tree.reads_regrouped]
    · rwa [Tree.reads_regrouped]
    · rw [Tree.text_regrouped, Tree.text_regrouped, same]
  · intro same
    rw [← Tree.text_regrouped, same, Tree.text_regrouped]

end

/-! ### Trees that keep their value -/

namespace Tree

/-- Outside of negations only this word is used. -/
def UsesOnly (connective : Connective) : Tree → Prop
  | binary other left right =>
      other = connective ∧ left.UsesOnly connective ∧ right.UsesOnly connective
  | _ => True

/-- Nothing is regrouped but operands of one and the same word: no word stands under a negation, and
right of a word no other one. -/
def IsUnmixed : Tree → Prop
  | leaf _ => True
  | negation _ operand => operand.isOperand = true ∧ operand.IsUnmixed
  | binary connective left right =>
      left.IsUnmixed ∧ right.IsUnmixed ∧ right.UsesOnly connective

theorem usesOnly_of_isOperand {tree : Tree} (operand : tree.isOperand = true)
    (connective : Connective) : tree.UsesOnly connective := by
  cases tree with
  | binary => cases operand
  | _ => trivial

theorem negate_of_isOperand {tree : Tree} (operand : tree.isOperand = true) (sign : Sign) :
    negate sign tree = negation sign tree := by
  cases tree with
  | binary => cases operand
  | _ => rfl

theorem isOperand_regrouped {tree : Tree} (operand : tree.isOperand = true)
    (unmixed : tree.IsUnmixed) : tree.regrouped.isOperand = true := by
  induction tree with
  | leaf atom => rfl
  | negation sign inner inductionHypothesis =>
      have single := inductionHypothesis unmixed.1 unmixed.2
      rw [regrouped, negate_of_isOperand single]
      rfl
  | binary => cases operand

theorem usesOnly_graft {connective : Connective} {before tree : Tree}
    (first : before.UsesOnly connective) (second : tree.UsesOnly connective) :
    (graft connective before tree).UsesOnly connective := by
  induction tree with
  | binary other left right inductionHypothesis _ =>
      exact ⟨second.1, inductionHypothesis second.2.1, second.2.2⟩
  | _ => exact ⟨rfl, first, second⟩

theorem usesOnly_regrouped {tree : Tree} {connective : Connective}
    (only : tree.UsesOnly connective) (unmixed : tree.IsUnmixed) :
    tree.regrouped.UsesOnly connective := by
  induction tree with
  | leaf atom => trivial
  | negation sign operand =>
      exact usesOnly_of_isOperand (isOperand_regrouped rfl unmixed) connective
  | binary other left right first second =>
      obtain ⟨rfl, leftOnly, rightOnly⟩ := only
      exact usesOnly_graft (first leftOnly unmixed.1) (second rightOnly unmixed.2.1)

theorem value_graft (assigned : String → Bool) {connective : Connective} (before : Tree)
    {tree : Tree} (only : tree.UsesOnly connective) :
    (graft connective before tree).value assigned =
      connective.apply (before.value assigned) (tree.value assigned) := by
  induction tree with
  | binary other left right inductionHypothesis _ =>
      obtain ⟨rfl, leftOnly, _⟩ := only
      simp only [graft, value, inductionHypothesis leftOnly, Connective.apply_assoc]
  | _ => rfl

/-- Reading an unmixed tree from the left keeps its value. -/
theorem value_regrouped (assigned : String → Bool) {tree : Tree} (unmixed : tree.IsUnmixed) :
    tree.regrouped.value assigned = tree.value assigned := by
  induction tree with
  | leaf atom => rfl
  | negation sign operand inner =>
      -- without a word under it, the sign stays where it is
      have single := isOperand_regrouped unmixed.1 unmixed.2
      rw [regrouped, negate_of_isOperand single, value, inner unmixed.2, value]
  | binary connective left right first second =>
      have only := usesOnly_regrouped unmixed.2.2 unmixed.2.1
      rw [regrouped, value_graft assigned _ only, first unmixed.1, second unmixed.2.1, value]

end Tree

end BlockVerilog.Words
