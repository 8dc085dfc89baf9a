import BlockVerilog.Proofs.Number.Nearest
import BlockVerilog.Proofs.Number.SizedLiteral

/-!
Whole numerals of any length as literals.

The two readers behind a literal have a bound each. What is too long for that of whole numerals goes
to that of doubles, and is rounded to a double beyond its bound: no numeral is read by both.
-/

namespace BlockVerilog

open Numeral Text

theorem isBlank_of_isDigit {c : Char} (digit : c.isDigit = true) : isBlank c = false := by
  obtain ⟨above, below⟩ := Char.isDigit_iff_toNat.mp digit
  change 48 ≤ c.toNat at above
  change c.toNat ≤ 57 at below
  simp only [isBlank, blankRanges, List.any_cons, List.any_nil, Bool.or_eq_false_iff,
    Bool.and_eq_false_iff, decide_eq_false_iff_not, and_true]
  omega

theorem Numeral.IsDigits.trim {text : List Char} (digits : IsDigits text) :
    Text.trim text = text := by
  have kept : ∀ {part : List Char}, (∀ c ∈ part, c.isDigit = true) →
      part.dropWhile isBlank = part := by
    intro part all
    cases part with
    | nil => rfl
    | cons c rest =>
        exact List.dropWhile_cons_of_neg
          (by simp [isBlank_of_isDigit (all c List.mem_cons_self)])
  have back : ∀ c ∈ text.reverse, c.isDigit = true := fun c listed =>
    digits.2 c (List.mem_reverse.mp listed)
  rw [Text.trim, Text.dropWhileEnd, kept digits.2, kept back, List.reverse_reverse]

theorem Numeral.IsDigits.plain {text : List Char} (digits : IsDigits text) :
    IsPlain text (ofDigits text) :=
  .bare digits.1 (read?_ten.mpr ⟨digits.2, rfl⟩)

theorem IsPlain.unique {text : List Char} {n m : Nat} (plain : IsPlain text n)
    (again : IsPlain text m) : n = m := by
  have bound : n < n + m + 1 ∧ m < n + m + 1 := by omega
  have first := parseNat_eq_some_iff.mpr ⟨plain, bound.1⟩
  exact Option.some.inj (first.symm.trans (parseNat_eq_some_iff.mpr ⟨again, bound.2⟩))

/-- A whole numeral that is too long for the first reader is too long for the second. -/
theorem parseUnsigned_of_long {text : List Char} {n : Nat} (long : 2 ^ 128 ≤ n)
    (plain : IsPlain (Text.trim text) n) : parseUnsigned text = none := by
  have other : ∀ m < 2 ^ 128, ¬ IsPlain (Text.trim text) m := by
    intro m small again
    rw [again.unique plain] at small
    exact absurd small (Nat.not_lt.mpr long)
  rw [parseUnsigned_of_not_plain other, plain.parseNumber_eq, Option.bind_some]
  split
  next => rfl
  next =>
    cases whole : (Binary64.ofRatio false n 1).natAbs? with
    | none => rfl
    | some m =>
        have large := Shortest.le_of_natAbs?_ofRatio long whole
        have bound : ¬ m < 2 ^ 64 := Nat.not_lt.mpr ((by decide : 2 ^ 64 ≤ 2 ^ 128).trans large)
        rw [Option.filter_some, if_neg (by simpa using bound)]

/-- A whole numeral is taken for the number that it writes up to a bound, and for none beyond. -/
theorem sizedLiteral_of_plain {text : String} {n : Nat} (plain : IsPlain (Text.trim text.toList) n)
    (radix : Radix) :
    if n < 2 ^ 128 then IsSized radix n (sizedLiteral radix text)
    else sizedLiteral radix text = dontCare radix := by
  split
  next small => exact sizedLiteral_of_some (parseUnsigned_of_plain small plain) radix
  next large =>
    exact sizedLiteral_of_none (parseUnsigned_of_long (Nat.le_of_not_lt large) plain) radix

/-- Decimal digits become the literal of the number that they write, or the don't-care literal if
that number has more than `128` binary digits. -/
theorem sizedLiteral_of_digits {text : String} (digits : IsDigits text.toList) :
    ∃ n, read? 10 text.toList = some n ∧ ∀ radix,
      if n < 2 ^ 128 then IsSized radix n (sizedLiteral radix text)
      else sizedLiteral radix text = dontCare radix := by
  refine ⟨ofDigits text.toList, read?_ten.mpr ⟨digits.2, rfl⟩, sizedLiteral_of_plain ?_⟩
  rw [digits.trim]
  exact digits.plain

/-- The least power of two that is too large for a literal. -/
def largeConstant : String := "340282366920938463463374607431768211456"

theorem isDigits_largeConstant : IsDigits largeConstant.toList :=
  ⟨by decide, List.all_eq_true.mp (by decide)⟩

theorem largeConstant_literal :
    IsDigits largeConstant.toList ∧ ∃ n, read? 10 largeConstant.toList = some n ∧ ∀ radix,
      if n < 2 ^ 128 then IsSized radix n (sizedLiteral radix largeConstant)
      else sizedLiteral radix largeConstant = dontCare radix :=
  ⟨isDigits_largeConstant, sizedLiteral_of_digits isDigits_largeConstant⟩

theorem largeConstant_lost :
    ¬ ∀ text : String, IsDigits text.toList → ∀ radix, sizedLiteral radix text ≠ dontCare radix ∧
      ∃ n, read? 10 text.toList = some n ∧ IsSized radix n (sizedLiteral radix text) := by
  intro claimed
  exact (claimed largeConstant isDigits_largeConstant .hex).1 (by decide +kernel)

end BlockVerilog
