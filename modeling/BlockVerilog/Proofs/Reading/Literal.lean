import BlockVerilog.Handlers.Atom
import BlockVerilog.Handlers.SizedLiteral
import BlockVerilog.Proofs.Names.Fresh
import BlockVerilog.Proofs.Reading.Tree

/-!
Names and literals are words.

A legal name is one, and so is the unsigned text of a finite number and every literal with a width.
-/

namespace BlockVerilog.Reading

theorem isAtomChar_of_isWordChar {c : Char} (word : Identifier.isWordChar c = true) :
    isAtomChar c = true := by
  simp [isAtomChar, word]

theorem isAtomChar_of_isDigit {c : Char} (digit : c.isDigit = true) : isAtomChar c = true :=
  isAtomChar_of_isWordChar (Identifier.isWordChar_of_isDigit digit)

theorem isWord_iff {text : List Char} :
    isWord text = true ↔ text ≠ [] ∧ (∀ c ∈ text, isAtomChar c = true) ∧
      text ≠ Edge.rising.text.toList ∧ text ≠ Edge.falling.text.toList := by
  simp only [isWord, Bool.and_eq_true, decide_eq_true_eq, List.all_eq_true, and_assoc]

theorem isWord_of_isLegal {name : String} (legal : Names.IsLegal name) :
    isWord name.toList = true := by
  have noKeyword : ∀ side : Edge, name.toList ≠ side.text.toList := by
    intro side same
    refine legal.noKeyword ?_
    rw [String.toList_inj.mp same]
    cases side <;> decide
  refine isWord_iff.mpr ⟨Identifier.ne_nil_of_isIdentifier legal.identifier, fun c member => ?_,
    noKeyword .rising, noKeyword .falling⟩
  exact isAtomChar_of_isWordChar (Identifier.isWordChar_of_mem legal.identifier member)

/-- A text that begins with a digit is a word, if it has the characters of one. -/
theorem isWord_of_digit {first : Char} {rest : List Char} (digit : first.isDigit = true)
    (atoms : ∀ c ∈ rest, isAtomChar c = true) : isWord (first :: rest) = true := by
  have noKeyword : ∀ side : Edge, first :: rest ≠ side.text.toList := by
    intro side same
    cases side <;> exact absurd digit (by rw [(List.cons.inj same).1]; decide)
  refine isWord_iff.mpr ⟨List.cons_ne_nil first rest, ?_, noKeyword .rising, noKeyword .falling⟩
  exact List.forall_mem_cons.mpr ⟨isAtomChar_of_isDigit digit, atoms⟩

theorem isDigit_of_mem_toDigits {n : Nat} {c : Char} (member : c ∈ Nat.toDigits 10 n) :
    c.isDigit = true := Nat.isDigit_of_mem_toDigits (by decide) (Nat.le_refl 10) member

theorem isAtomChar_of_mem_toDigits {base n : Nat} (several : 1 < base) (few : base ≤ 16) {c : Char}
    (member : c ∈ Nat.toDigits base n) : isAtomChar c = true := by
  have digit : ∀ d < 16, isAtomChar (Nat.digitChar d) = true := by decide
  induction n using Nat.strongRecOn with
  | ind n inductionHypothesis =>
      rw [Nat.toDigits_eq_if several] at member
      split at member
      next below =>
        rw [List.mem_singleton.mp member]
        exact digit n (by omega)
      next above =>
        rcases List.mem_append.mp member with high | low
        · exact inductionHypothesis (n / base) (Nat.div_lt_self (by omega) several) high
        · rw [List.mem_singleton.mp low]
          exact digit _ (Nat.lt_of_lt_of_le (Nat.mod_lt n (by omega)) few)

theorem isWord_toDigits_append (n : Nat) {more : List Char}
    (atoms : ∀ c ∈ more, isAtomChar c = true) : isWord (Nat.toDigits 10 n ++ more) = true := by
  have digits : ∀ c ∈ Nat.toDigits 10 n, c.isDigit = true := fun c => isDigit_of_mem_toDigits
  cases spelled : Nat.toDigits 10 n with
  | nil => exact absurd spelled Nat.toDigits_ne_nil
  | cons first rest =>
      rw [spelled, List.forall_mem_cons] at digits
      apply isWord_of_digit digits.1
      intro c member
      rcases List.mem_append.mp member with digit | behind
      · exact isAtomChar_of_isDigit (digits.2 c digit)
      · exact atoms c behind

theorem isWord_toDigits (n : Nat) : isWord (Nat.toDigits 10 n) = true := by
  simpa using isWord_toDigits_append n (fun c (none : c ∈ []) => absurd none List.not_mem_nil)

theorem isWord_positional (d : Decimal) : isWord d.positional = true := by
  have digits : ∀ c ∈ Nat.toDigits 10 d.coefficient, c.isDigit = true :=
    fun c => isDigit_of_mem_toDigits
  have point : isAtomChar '.' = true := by decide
  unfold Decimal.positional
  split
  next => exact isWord_toDigits _
  next down _ =>
    dsimp only
    split
    next =>
      refine isWord_of_digit (by decide) ?_
      simp only [List.append_eq, List.mem_cons, List.mem_append, List.mem_replicate]
      rintro c ((rfl | ⟨_, rfl⟩) | digit)
      · exact point
      · decide
      · exact isAtomChar_of_isDigit (digits c digit)
    next more =>
      have some_before : (Nat.toDigits 10 d.coefficient).length - (down + 1) ≠ 0 := by omega
      cases taken : (Nat.toDigits 10 d.coefficient).take
          ((Nat.toDigits 10 d.coefficient).length - (down + 1)) with
      | nil =>
          rw [List.take_eq_nil_iff] at taken
          exact absurd taken (not_or.mpr ⟨some_before, Nat.toDigits_ne_nil⟩)
      | cons first rest =>
          have front : ∀ c ∈ first :: rest, c.isDigit = true := fun c member =>
            digits c (List.mem_of_mem_take (taken ▸ member))
          rw [List.forall_mem_cons] at front
          refine isWord_of_digit front.1 ?_
          simp only [List.append_eq, List.mem_append, List.mem_cons]
          rintro c (before | rfl | after)
          · exact isAtomChar_of_isDigit (front.2 c before)
          · exact point
          · exact isAtomChar_of_isDigit (digits c (List.mem_of_mem_drop after))

theorem isWord_sizedLiteral (radix : Radix) (text : String) :
    isWord (sizedLiteral radix text).toList = true := by
  have letter : isAtomChar radix.letter = true := by cases radix <;> decide
  have base : 1 < radix.base ∧ radix.base ≤ 16 := by cases radix <;> decide
  unfold sizedLiteral
  split
  next n _ =>
    rw [String.toList_ofList]
    refine isWord_toDigits_append _ ?_
    simp only [List.mem_cons]
    rintro c (rfl | rfl | digit)
    · decide
    · exact letter
    · exact isAtomChar_of_mem_toDigits base.1 base.2 digit
  next =>
    rw [String.toList_ofList]
    cases radix <;> decide

end BlockVerilog.Reading
