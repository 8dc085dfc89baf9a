import Mathlib.Data.Rat.Cast.Order
import Mathlib.Tactic.FieldSimp
import Mathlib.Tactic.Linarith
import BlockVerilog.Number.Binary64

/-!
The values of doubles, and whole numbers as doubles.

A whole number may lose digits as it is rounded, but it stays whole: what is cut off lies above the
point.
-/

namespace BlockVerilog.Binary64

/-- The value of a finite number. -/
def toRat? : Binary64 → Option ℚ
  | finite negative mantissa exponent =>
      some ((if negative then -1 else 1) * (mantissa * 2 ^ exponent / unitsPerOne))
  | _ => none

/-- How many places behind the binary point the least positive number has. -/
def places : Nat := 1074

theorem unitsPerOne_eq : unitsPerOne = 2 ^ places := by decide +kernel

theorem unitsPerOne_pos : 0 < unitsPerOne := by
  rw [unitsPerOne_eq]
  exact Nat.two_pow_pos places

theorem natAbs?_finite {negative : Bool} {mantissa exponent n : Nat} :
    (finite negative mantissa exponent).natAbs? = some n ↔
      mantissa * 2 ^ exponent = n * unitsPerOne := by
  have positive := unitsPerOne_pos
  change (if mantissa * 2 ^ exponent % unitsPerOne = 0 then
    some (mantissa * 2 ^ exponent / unitsPerOne) else none) = some n ↔ _
  split
  next whole =>
    rw [Option.some.injEq, Nat.div_eq_iff_eq_mul_left positive (Nat.dvd_of_mod_eq_zero whole)]
  next part =>
    refine ⟨fun nothing => (nomatch nothing), fun whole => absurd ?_ part⟩
    rw [whole, Nat.mul_mod_left]

/-- A double is a natural number exactly if it is whole and not below zero. -/
theorem toRat?_eq_natCast_iff {x : Binary64} {n : Nat} :
    x.toRat? = some (n : ℚ) ↔ x.isNegative = false ∧ x.natAbs? = some n := by
  cases x with
  | nan => exact ⟨fun nothing => (nomatch nothing), fun holds => (nomatch holds.2)⟩
  | infinite negative => exact ⟨fun nothing => (nomatch nothing), fun holds => (nomatch holds.2)⟩
  | finite negative mantissa exponent =>
      have sign : (finite true mantissa exponent).isNegative = false ↔ mantissa = 0 := by
        simp [isNegative]
      have one := unitsPerOne_pos
      rw [natAbs?_finite, toRat?, Option.some.injEq]
      generalize unitsPerOne = units at one ⊢
      have positive : (0 : ℚ) < units := by exact_mod_cast one
      cases negative with
      | false =>
          rw [if_neg (by decide), one_mul, div_eq_iff positive.ne']
          refine ⟨fun same => ⟨rfl, by exact_mod_cast same⟩, fun holds => ?_⟩
          exact_mod_cast holds.2
      | true =>
          rw [if_pos rfl, neg_one_mul, neg_eq_iff_eq_neg, div_eq_iff positive.ne', sign]
          constructor
          · -- neither side is on the other side of zero
            intro same
            have above : (0 : ℚ) ≤ mantissa * 2 ^ exponent := by positivity
            have below : (0 : ℚ) ≤ n * units := by positivity
            have number : (n : ℚ) * units = 0 := by linarith
            have zero : (mantissa : ℚ) * 2 ^ exponent = 0 := by linarith
            have nothing : mantissa = 0 := by simpa using zero
            have product : n * units = 0 := by exact_mod_cast number
            exact ⟨nothing, by rw [product, nothing, Nat.zero_mul]⟩
          · rintro ⟨rfl, same⟩
            have none : n = 0 := by
              rw [Nat.zero_mul] at same
              exact (Nat.mul_eq_zero.mp same.symm).resolve_right one.ne'
            rw [none]
            simp

theorem roundQuotient_mul (quotient : Nat) {den : Nat} (positive : 0 < den) :
    roundQuotient (quotient * den) den = quotient := by
  simp only [roundQuotient, Nat.mul_div_cancel quotient positive, Nat.mul_mod_left]
  rw [if_pos (by omega)]

theorem log2_mul_two_pow {n : Nat} (positive : 0 < n) (k : Nat) :
    (n * 2 ^ k).log2 = n.log2 + k := by
  have scaled : n * 2 ^ k ≠ 0 := (Nat.mul_pos positive (Nat.two_pow_pos k)).ne'
  rw [Nat.log2_eq_iff scaled, Nat.pow_add, Nat.add_right_comm, Nat.pow_add]
  exact ⟨Nat.mul_le_mul_right _ (Nat.log2_self_le positive.ne'),
    Nat.mul_lt_mul_of_pos_right Nat.lt_log2_self (Nat.two_pow_pos k)⟩

/-- A whole number is rounded to fifty-three binary digits. -/
theorem ofRatio_one {n exponent : Nat} (positive : 0 < n)
    (exponents : exponent = n.log2 + places - 52) :
    ofRatio false n 1 =
      ofMantissa false (roundQuotient (n * 2 ^ places) (2 ^ exponent)) exponent := by
  rw [ofRatio, unitsPerOne_eq, Nat.div_one, log2_mul_two_pow positive, ← exponents, Nat.one_mul,
    Nat.pow_eq]

/-- A whole number is rounded to a whole number. -/
theorem ofRatio_whole {n : Nat} (small : n < 2 ^ 128) :
    ∃ mantissa exponent, ofRatio false n 1 = finite false mantissa exponent ∧
      unitsPerOne ∣ mantissa * 2 ^ exponent := by
  obtain rfl | positive := Nat.eq_zero_or_pos n
  · refine ⟨0, 0, ?_, 0, by rw [Nat.zero_mul, Nat.mul_zero]⟩
    have none : roundQuotient 0 (1 * Nat.pow 2 0) = 0 := roundQuotient_mul 0 Nat.one_pos
    simp only [ofRatio, Nat.zero_mul, Nat.zero_div, Nat.log2_zero, Nat.zero_sub, none]
    rfl
  · have few : n.log2 < 128 := (Nat.log2_lt positive.ne').mpr small
    have known : places = 1074 := rfl
    have largest : maxExponent = 2045 := rfl
    obtain ⟨exponent, exponents⟩ : ∃ exponent, exponent = n.log2 + places - 52 := ⟨_, rfl⟩
    rw [ofRatio_one positive exponents, unitsPerOne_eq]
    by_cases long : places ≤ exponent
    · -- digits are lost, but the units of the last one are whole
      have whole : 2 ^ places ∣ 2 ^ exponent := Nat.pow_dvd_pow 2 long
      unfold ofMantissa
      split
      next =>
        rw [if_pos (by omega)]
        exact ⟨_, _, rfl, Nat.dvd_mul_left_of_dvd whole _⟩
      next =>
        rw [if_pos (by omega)]
        refine ⟨_, _, rfl, Nat.dvd_mul_left_of_dvd (whole.trans ?_) _⟩
        exact Nat.pow_dvd_pow 2 exponent.le_succ
    · -- all digits stay
      have shift : n * 2 ^ places = n * 2 ^ (places - exponent) * 2 ^ exponent := by
        rw [Nat.mul_assoc, ← Nat.pow_add, Nat.sub_add_cancel (by omega)]
      have fits : n * 2 ^ (places - exponent) < mantissaBound := by
        have bound : 2 ^ (n.log2 + 1) * 2 ^ (places - exponent) = mantissaBound := by
          rw [← Nat.pow_add, show n.log2 + 1 + (places - exponent) = 53 by omega]
          rfl
        rw [← bound]
        exact Nat.mul_lt_mul_of_pos_right Nat.lt_log2_self (Nat.two_pow_pos _)
      rw [shift, roundQuotient_mul _ (Nat.two_pow_pos exponent), ofMantissa, if_pos fits,
        if_pos (by omega)]
      exact ⟨_, _, rfl, n, by rw [← shift, Nat.mul_comm]⟩

/-- Rounded, a whole number is still a natural number. -/
theorem exists_toRat?_ofRatio {n : Nat} (small : n < 2 ^ 128) :
    ∃ m : Nat, (ofRatio false n 1).toRat? = some (m : ℚ) := by
  obtain ⟨mantissa, exponent, rounds, m, units⟩ := ofRatio_whole small
  refine ⟨m, toRat?_eq_natCast_iff.mpr ?_⟩
  rw [rounds]
  exact ⟨rfl, natAbs?_finite.mpr (units.trans (Nat.mul_comm _ _))⟩

end BlockVerilog.Binary64
