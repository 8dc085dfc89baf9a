import BlockVerilog.Number.Shortest
import BlockVerilog.Proofs.Number.Rounding

/-!
Which whole numbers have the same double.

A double is the nearest one of all numbers in an interval around it. So a whole number is rounded to
a double exactly if it lies in the interval of that, and the intervals are narrow: numbers that
share one differ by no more than the last place of their double.
-/

namespace BlockVerilog

namespace Binary64

/-- A larger number of parts is larger by a part at least. -/
theorem mul_add_le_mul {n m : Nat} (less : n < m) (part : Nat) : n * part + part ≤ m * part := by
  rw [← Nat.succ_mul]
  exact Nat.mul_le_mul_right part less

/-- Numbers of parts that are less than a part from each other are equal. -/
theorem eq_of_mul_lt_add {n m part : Nat} (near : n * part < m * part + part)
    (nearToo : m * part < n * part + part) : n = m := by
  by_contra other
  obtain less | more := Nat.lt_or_gt_of_ne other
  · exact absurd nearToo (Nat.not_lt.mpr (mul_add_le_mul less part))
  · exact absurd near (Nat.not_lt.mpr (mul_add_le_mul more part))

/-- A quotient is rounded to the nearest whole number, and to the even one of two. -/
theorem roundQuotient_eq_iff {num den quotient : Nat} (positive : 0 < den) :
    roundQuotient num den = quotient ↔
      2 * (quotient * den) ≤ 2 * num + den ∧ 2 * num ≤ 2 * (quotient * den) + den ∧
        (2 * num + den = 2 * (quotient * den) ∨ 2 * num = 2 * (quotient * den) + den →
          quotient % 2 = 0) := by
  have split := Nat.div_add_mod' num den
  have below := Nat.mod_lt num positive
  obtain ⟨down, downs⟩ : ∃ down, down = num / den := ⟨_, rfl⟩
  obtain ⟨rest, rests⟩ : ∃ rest, rest = num % den := ⟨_, rfl⟩
  simp only [roundQuotient, ← downs, ← rests] at split below ⊢
  have next : (down + 1) * den = down * den + den := Nat.succ_mul down den
  constructor
  · rintro rfl
    split
    next => omega
    next =>
      split
      next => omega
      next =>
        obtain even | odd := Nat.mod_two_eq_zero_or_one down
        · rw [even, Nat.add_zero]
          omega
        · rw [odd]
          omega
  · rintro ⟨above, beneath, tie⟩
    -- only the two neighbours of the exact quotient are near enough
    have least : down ≤ quotient := by
      by_contra less
      have product := mul_add_le_mul (Nat.lt_of_not_le less) den
      omega
    have most : quotient ≤ down + 1 := by
      by_contra more
      have product := mul_add_le_mul (Nat.lt_of_not_le more) den
      omega
    obtain rfl | rfl : quotient = down ∨ quotient = down + 1 := by omega
    · split
      next => rfl
      next =>
        rw [if_neg (by omega)]
        have even := tie (by omega)
        omega
    · rw [next] at above beneath tie
      split
      next => omega
      next =>
        split
        next => rfl
        next =>
          have even := tie (by omega)
          omega

theorem ofMantissa_of_lt {mantissa exponent : Nat} (small : mantissa < 2 ^ 53)
    (finite : exponent ≤ maxExponent) :
    ofMantissa false mantissa exponent = .finite false mantissa exponent := by
  have bound : mantissaBound = 2 ^ 53 := rfl
  rw [ofMantissa, bound, if_pos small, if_pos finite]

theorem ofMantissa_carry {exponent : Nat} (finite : exponent < maxExponent) :
    ofMantissa false (2 ^ 53) exponent = .finite false (2 ^ 52) (exponent + 1) := by
  have bound : mantissaBound = 2 ^ 53 := rfl
  rw [ofMantissa, bound, if_neg (Nat.lt_irrefl _), if_pos finite]
  rfl

end Binary64

namespace Shortest

open Binary64

/-- A mantissa of full length. -/
structure IsNormal (mantissa exponent : Nat) : Prop where
  least : 2 ^ 52 ≤ mantissa
  below : mantissa < 2 ^ 53
  positive : 0 < exponent

/-- A whole number in quarters of the least positive double. -/
def quarters (n : Nat) : Nat := 4 * (n * 2 ^ places)

/-- Half the gap below a number, in quarters of its last place. -/
def gapBelow (mantissa : Nat) : Nat := if mantissa = 2 ^ 52 then 1 else 2

theorem gapBelow_eq (mantissa : Nat) :
    mantissa = 2 ^ 52 ∧ gapBelow mantissa = 1 ∨ mantissa ≠ 2 ^ 52 ∧ gapBelow mantissa = 2 := by
  unfold gapBelow
  split
  next power => exact .inl ⟨power, rfl⟩
  next other => exact .inr ⟨other, rfl⟩

theorem gapBelow_le (mantissa exponent : Nat) :
    gapBelow mantissa * 2 ^ exponent ≤ 2 * 2 ^ exponent := by
  apply Nat.mul_le_mul_right
  obtain ⟨_, gap⟩ | ⟨_, gap⟩ := gapBelow_eq mantissa <;> omega

theorem around_eq {mantissa exponent : Nat} (normal : IsNormal mantissa exponent) :
    Interval.around mantissa exponent =
      ⟨4 * (mantissa * 2 ^ exponent) - gapBelow mantissa * 2 ^ exponent,
        4 * (mantissa * 2 ^ exponent), 4 * (mantissa * 2 ^ exponent) + 2 * 2 ^ exponent,
        mantissa % 2 = 0⟩ := by
  have gap : (if mantissa = Nat.pow 2 52 ∧ exponent ≠ 0 then 1 else 2) = gapBelow mantissa := by
    simp only [normal.positive.ne', ne_eq, not_false_eq_true, and_true]
    rfl
  simp only [Interval.around, gap, Nat.pow_eq, Nat.sub_mul, Nat.add_mul, Nat.mul_assoc]

/-- The numbers of an interval, by their distance from its middle. -/
theorem contains_around_iff {mantissa exponent x : Nat} (normal : IsNormal mantissa exponent) :
    (Interval.around mantissa exponent).contains x = true ↔
      4 * (mantissa * 2 ^ exponent) ≤ x + gapBelow mantissa * 2 ^ exponent ∧
        x ≤ 4 * (mantissa * 2 ^ exponent) + 2 * 2 ^ exponent ∧
        (4 * (mantissa * 2 ^ exponent) = x + gapBelow mantissa * 2 ^ exponent ∨
          x = 4 * (mantissa * 2 ^ exponent) + 2 * 2 ^ exponent → mantissa % 2 = 0) := by
  have long := Nat.mul_le_mul_right (2 ^ exponent) normal.least
  have enough : gapBelow mantissa * 2 ^ exponent ≤ 4 * (mantissa * 2 ^ exponent) :=
    (gapBelow_le mantissa exponent).trans (by omega)
  rw [around_eq normal]
  unfold Interval.contains
  generalize gapBelow mantissa * 2 ^ exponent = gap at enough ⊢
  by_cases even : mantissa % 2 = 0
  · simp only [even, decide_true, if_true, Bool.and_eq_true, decide_eq_true_eq, implies_true,
      and_true]
    omega
  · simp only [even, decide_false, Bool.false_eq_true, if_false, Bool.and_eq_true,
      decide_eq_true_eq, imp_false]
    omega

/-- The exponent that a whole number is rounded with leaves it fifty-three binary digits. -/
theorem exponent_iff {n exponent : Nat} (positive : 0 < n) :
    exponent = n.log2 + places - 52 ↔
      2 ^ 52 * 2 ^ exponent ≤ n * 2 ^ places ∧ n * 2 ^ places < 2 ^ 53 * 2 ^ exponent := by
  have deep : 52 ≤ places := by decide
  have scaled : n * 2 ^ places ≠ 0 := (Nat.mul_pos positive (Nat.two_pow_pos places)).ne'
  rw [← Nat.pow_add, ← Nat.pow_add, Nat.add_comm 53, ← Nat.add_assoc exponent 52 1,
    Nat.add_comm 52, ← Nat.log2_eq_iff scaled, log2_mul_two_pow positive]
  omega

variable {n mantissa exponent : Nat}

theorem roundQuotient_range (above : 2 ^ 52 * 2 ^ exponent ≤ n)
    (beneath : n < 2 ^ 53 * 2 ^ exponent) :
    2 ^ 52 ≤ roundQuotient n (2 ^ exponent) ∧ roundQuotient n (2 ^ exponent) ≤ 2 ^ 53 := by
  have power := Nat.two_pow_pos exponent
  obtain ⟨quotient, quotients⟩ : ∃ quotient, roundQuotient n (2 ^ exponent) = quotient :=
    ⟨_, rfl⟩
  obtain ⟨near, nearToo, _⟩ := (roundQuotient_eq_iff power).mp quotients
  rw [quotients]
  constructor
  · by_contra less
    have product := mul_add_le_mul (Nat.lt_of_not_le less) (2 ^ exponent)
    omega
  · by_contra more
    have product := mul_add_le_mul (Nat.lt_of_not_le more) (2 ^ exponent)
    omega

/-- A whole number has a double with a mantissa of full length, which is not below the leading digit
of the number, or it is beyond the doubles. -/
theorem ofRatio_cases (positive : 0 < n) :
    1023 ≤ n.log2 ∧ ofRatio false n 1 = .infinite false ∨
      ∃ mantissa exponent, IsNormal mantissa exponent ∧ exponent ≤ maxExponent ∧
        2 ^ n.log2 * 2 ^ places ≤ mantissa * 2 ^ exponent ∧
        ofRatio false n 1 = .finite false mantissa exponent := by
  have known : places = 1074 := rfl
  have largest : maxExponent = 2045 := rfl
  obtain ⟨exponent, begins⟩ : ∃ exponent, exponent = n.log2 + places - 52 := ⟨_, rfl⟩
  obtain ⟨above, beneath⟩ := (exponent_iff positive).mp begins
  obtain ⟨least, most⟩ := roundQuotient_range above beneath
  have leading : 2 ^ n.log2 * 2 ^ places = 2 ^ 52 * 2 ^ exponent := by
    rw [← Nat.pow_add, ← Nat.pow_add]
    congr 1
    omega
  rw [ofRatio_one positive begins, leading]
  obtain below | carries := Nat.lt_or_eq_of_le most
  · by_cases finite : exponent ≤ maxExponent
    · right
      exact ⟨_, exponent, ⟨least, below, by omega⟩, finite, Nat.mul_le_mul_right _ least,
        ofMantissa_of_lt below finite⟩
    · left
      have bound : mantissaBound = 2 ^ 53 := rfl
      rw [ofMantissa, bound, if_pos below, if_neg finite]
      exact ⟨by omega, rfl⟩
  · rw [carries]
    by_cases finite : exponent < maxExponent
    · right
      refine ⟨2 ^ 52, exponent + 1, ⟨Nat.le_refl _, by decide, exponent.succ_pos⟩, finite, ?_,
        ofMantissa_carry finite⟩
      exact Nat.mul_le_mul_left _ (Nat.pow_le_pow_right (by decide) exponent.le_succ)
    · left
      have bound : mantissaBound = 2 ^ 53 := rfl
      rw [ofMantissa, bound, if_neg (Nat.lt_irrefl _), if_neg finite]
      exact ⟨by omega, rfl⟩

/-- A whole number that is not below a power of two has no double below it. -/
theorem le_of_natAbs?_ofRatio {power whole : Nat} (large : 2 ^ power ≤ n)
    (natural : (ofRatio false n 1).natAbs? = some whole) : 2 ^ power ≤ whole := by
  have positive : 0 < n := Nat.lt_of_lt_of_le (Nat.two_pow_pos power) large
  obtain ⟨_, infinite⟩ | ⟨mantissa, exponent, _, _, leading, rounds⟩ := ofRatio_cases positive
  · rw [infinite] at natural
    cases natural
  · rw [rounds, natAbs?_finite, unitsPerOne_eq] at natural
    have bits : power ≤ n.log2 := (Nat.le_log2 positive.ne').mpr large
    rw [natural] at leading
    exact (Nat.pow_le_pow_right (by decide) bits).trans
      (Nat.le_of_mul_le_mul_right leading (Nat.two_pow_pos places))

/-- A whole number is rounded to a double exactly if it lies in the interval of that. -/
theorem ofRatio_eq_finite_iff (positive : 0 < n) (normal : IsNormal mantissa exponent)
    (finite : exponent ≤ maxExponent) :
    ofRatio false n 1 = .finite false mantissa exponent ↔
      (Interval.around mantissa exponent).contains (quarters n) = true := by
  rw [contains_around_iff normal, quarters]
  constructor
  · obtain ⟨begun, begins⟩ : ∃ begun, begun = n.log2 + places - 52 := ⟨_, rfl⟩
    obtain ⟨above, beneath⟩ := (exponent_iff positive).mp begins
    obtain ⟨quotient, quotients⟩ : ∃ quotient,
        roundQuotient (n * 2 ^ places) (2 ^ begun) = quotient := ⟨_, rfl⟩
    rw [ofRatio_one positive begins, quotients]
    obtain ⟨near, nearToo, tie⟩ := (roundQuotient_eq_iff (Nat.two_pow_pos begun)).mp quotients
    intro rounds
    unfold ofMantissa at rounds
    split at rounds
    next =>
      split at rounds
      next =>
        cases rounds
        obtain ⟨rfl, gap⟩ | ⟨_, gap⟩ := gapBelow_eq mantissa <;>
        · rw [gap]
          omega
      next => cases rounds
    next carries =>
      have most := (roundQuotient_range above beneath).2
      have whole : quotient = 2 ^ 53 :=
        Nat.le_antisymm (quotients ▸ most) (Nat.le_of_not_lt carries)
      subst whole
      split at rounds
      next =>
        cases rounds
        have gap : gapBelow (2 ^ 53 / 2) = 1 := by decide
        rw [gap, Nat.pow_succ]
        omega
      next => cases rounds
  · rintro ⟨near, nearToo, tie⟩
    by_cases above : 2 ^ 52 * 2 ^ exponent ≤ n * 2 ^ places
    · have power := Nat.two_pow_pos exponent
      have most := Nat.mul_le_mul_right (2 ^ exponent) (Nat.le_sub_one_of_lt normal.below)
      have beneath : n * 2 ^ places < 2 ^ 53 * 2 ^ exponent := by omega
      have begins := (exponent_iff positive).mpr ⟨above, beneath⟩
      rw [ofRatio_one positive begins]
      have rounds : roundQuotient (n * 2 ^ places) (2 ^ exponent) = mantissa := by
        rw [roundQuotient_eq_iff (Nat.two_pow_pos exponent)]
        obtain ⟨rfl, gap⟩ | ⟨_, gap⟩ := gapBelow_eq mantissa <;>
        · rw [gap] at near tie
          omega
      rw [rounds, ofMantissa_of_lt normal.below finite]
    · -- below a power of two the numbers have one more place, which is lost in the carry
      obtain ⟨rfl, gap⟩ | ⟨other, gap⟩ := gapBelow_eq mantissa
      · obtain ⟨before, rfl⟩ := Nat.exists_eq_succ_of_ne_zero normal.positive.ne'
        have doubled : 2 ^ before.succ = 2 * 2 ^ before := Nat.pow_succ'
        rw [gap, doubled] at near
        rw [doubled] at above
        have begins : before = n.log2 + places - 52 := by
          rw [exponent_iff positive]
          omega
        rw [ofRatio_one positive begins]
        have rounds : roundQuotient (n * 2 ^ places) (2 ^ before) = 2 ^ 53 := by
          rw [roundQuotient_eq_iff (Nat.two_pow_pos before)]
          omega
        rw [rounds, ofMantissa_carry finite]
      · have longer : 2 ^ 52 + 1 ≤ mantissa := by
          have least := normal.least
          omega
        have product := Nat.mul_le_mul_right (2 ^ exponent) longer
        rw [gap] at near
        omega

end Shortest
end BlockVerilog
