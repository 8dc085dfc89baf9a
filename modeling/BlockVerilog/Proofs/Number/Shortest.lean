import Mathlib.Data.Nat.Dist
import BlockVerilog.Number.Text
import BlockVerilog.Proofs.Number.Nearest

/-!
The texts of doubles that stand for whole numbers.

Of the whole numbers with one double, that with the most zeros at its end is written, and of several
such numbers the one nearest to the double. A number is written as itself exactly if it is that one.
-/

namespace BlockVerilog

/-- Of the whole numbers with the double of a number, the one that is written. -/
structure IsShortest (n m : Nat) : Prop where
  same : Binary64.ofNat m = Binary64.ofNat n
  /-- No number with this double has fewer digits in front of zeros. -/
  fewest : ∀ other k, Binary64.ofNat other = Binary64.ofNat n → 10 ^ k ∣ other → 10 ^ k ∣ m
  /-- None with as few digits is nearer to the double, and the larger one of two is taken. -/
  nearest : ∀ double other, (Binary64.ofNat n).natAbs? = some double →
    Binary64.ofNat other = Binary64.ofNat n → (∀ k, 10 ^ k ∣ m → 10 ^ k ∣ other) →
      m.dist double ≤ other.dist double ∧ (other.dist double ≤ m.dist double → other ≤ m)

namespace Shortest

open Binary64

/-- The value of an interval lies inside it. -/
structure Interval.Proper (i : Interval) : Prop where
  low : i.low < i.value
  high : i.value < i.high

variable {i : Interval} {x y step c : Nat}

/-- What lies between a number of an interval and its value is in the interval. -/
theorem Interval.Proper.contains (proper : i.Proper) (inside : i.contains x = true)
    (between : x ≤ y ∧ y ≤ i.value ∨ i.value ≤ y ∧ y ≤ x) : i.contains y = true := by
  have low := proper.low
  have high := proper.high
  unfold Interval.contains at inside ⊢
  cases closed : i.closed with
  | true =>
      simp only [closed, if_true, Bool.and_eq_true, decide_eq_true_eq] at inside ⊢
      omega
  | false =>
      simp only [closed, Bool.false_eq_true, if_false, Bool.and_eq_true,
        decide_eq_true_eq] at inside ⊢
      omega

/-- The multiples of a step in front of a value and behind it. -/
theorem multiple_cases (value c : Nat) (positive : 0 < step) :
    c ≤ value / step ∧ c * step ≤ value / step * step ∧ value / step * step ≤ value ∨
      value / step + 1 ≤ c ∧ (value / step + 1) * step ≤ c * step ∧
        value ≤ (value / step + 1) * step := by
  obtain before | behind := Nat.lt_or_ge (value / step) c
  · exact .inr ⟨before, Nat.mul_le_mul_right step before,
      (Nat.lt_mul_of_div_lt (Nat.lt_succ_self _) positive).le⟩
  · exact .inl ⟨behind, Nat.mul_le_mul_right step behind, Nat.div_mul_le_self value step⟩

/-- The multiple that is found is one of the two beside the value, and not the farther one if both
are in the interval. -/
theorem nearest?_cases (found : i.nearest? .up step = some c) :
    c = i.value / step ∧ i.contains (i.value / step * step) = true ∧
        (i.contains ((i.value / step + 1) * step) = true → 2 * (i.value % step) < step) ∨
      c = i.value / step + 1 ∧ i.contains ((i.value / step + 1) * step) = true ∧
        (i.contains (i.value / step * step) = true → step ≤ 2 * (i.value % step)) := by
  simp only [Interval.nearest?] at found
  split at found
  next => cases found
  next down noUp => exact .inl ⟨(Option.some.inj found).symm, down, fun up => by simp [noUp] at up⟩
  next noDown up =>
    exact .inr ⟨(Option.some.inj found).symm, up, fun down => by simp [noDown] at down⟩
  next down up =>
    split at found
    next below => exact .inl ⟨(Option.some.inj found).symm, down, fun _ => below⟩
    next notBelow =>
      have half := Nat.le_of_not_lt notBelow
      split at found <;> exact .inr ⟨(Option.some.inj found).symm, up, fun _ => half⟩

theorem contains_of_nearest? (found : i.nearest? .up step = some c) :
    i.contains (c * step) = true := by
  rcases nearest?_cases found with ⟨rfl, down, _⟩ | ⟨rfl, up, _⟩
  · exact down
  · exact up

/-- A multiple of the step in the interval is found if there is one. -/
theorem isSome_nearest? (proper : i.Proper) (positive : 0 < step)
    (inside : i.contains (c * step) = true) : (i.nearest? .up step).isSome = true := by
  have neighbour : i.contains (i.value / step * step) = true ∨
      i.contains ((i.value / step + 1) * step) = true :=
    (multiple_cases i.value c positive).imp
      (fun holds => proper.contains inside (.inl holds.2))
      (fun holds => proper.contains inside (.inr ⟨holds.2.2, holds.2.1⟩))
  simp only [Interval.nearest?]
  split
  next noDown noUp =>
    rw [noDown, noUp] at neighbour
    exact absurd neighbour (by decide)
  next => rfl
  next => rfl
  next =>
    split
    next => rfl
    next => split <;> rfl

/-- No multiple of the step in the interval is nearer to its value than the one found. -/
theorem dist_nearest? (proper : i.Proper) (positive : 0 < step)
    (found : i.nearest? .up step = some c) {other : Nat}
    (inside : i.contains (other * step) = true) :
    (c * step).dist i.value ≤ (other * step).dist i.value ∧
      ((other * step).dist i.value ≤ (c * step).dist i.value → other ≤ c) := by
  have parts := Nat.div_add_mod' i.value step
  have below := Nat.mod_lt i.value positive
  have next : (i.value / step + 1) * step = i.value / step * step + step := Nat.succ_mul _ _
  unfold Nat.dist
  rcases nearest?_cases found with ⟨rfl, _, noUp⟩ | ⟨rfl, _, noDown⟩
  · obtain before | behind := multiple_cases i.value other positive
    · omega
    · have near := noUp (proper.contains inside (.inr ⟨behind.2.2, behind.2.1⟩))
      omega
  · obtain before | behind := multiple_cases i.value other positive
    · have near := noDown (proper.contains inside (.inl before.2))
      omega
    · refine ⟨by omega, fun near => ?_⟩
      have most : other * step ≤ (i.value / step + 1) * step := by omega
      exact Nat.le_of_mul_le_mul_right most positive

theorem proper_around {mantissa exponent : Nat} (normal : IsNormal mantissa exponent) :
    (Interval.around mantissa exponent).Proper := by
  have power := Nat.two_pow_pos exponent
  have long := normal.least
  have gap : 0 < gapBelow mantissa * 2 ^ exponent := by
    apply Nat.mul_pos _ power
    obtain ⟨_, gap⟩ | ⟨_, gap⟩ := gapBelow_eq mantissa <;> omega
  have value : 0 < mantissa * 2 ^ exponent := Nat.mul_pos (by omega) power
  rw [around_eq normal]
  exact ⟨Nat.sub_lt (by omega) gap, by dsimp only; omega⟩

/-- On the grid of the multiples of a power of ten, the multiples are those in quarters. -/
theorem onGrid?_natCast (i : Interval) (p : Nat) :
    onGrid? .up i (p : Int) = (i.nearest? .up (quarters (10 ^ p))).map (⟨·, (p : Int)⟩) := by
  have exact : i.scale (Nat.pow 10 (-(p : Int)).toNat) = i := by
    have none : (-(p : Int)).toNat = 0 := by omega
    simp only [none, Interval.scale, Nat.pow_eq, Nat.pow_zero, Nat.mul_one]
  have step : Nat.pow 10 (p : Int).toNat * (4 * unitsPerOne) = quarters (10 ^ p) := by
    rw [Int.toNat_natCast, Nat.pow_eq, unitsPerOne_eq, quarters, Nat.mul_left_comm]
  rw [onGrid?, exact, step]

theorem mul_quarters (c n : Nat) : c * quarters n = quarters (c * n) := by
  rw [quarters, quarters, Nat.mul_left_comm, Nat.mul_assoc]

theorem quarters_pos {n : Nat} (positive : 0 < n) : 0 < quarters n :=
  Nat.mul_pos (by decide) (Nat.mul_pos positive (Nat.two_pow_pos places))

/-- The first element that a list of numbers is asked for. -/
theorem exists_first {α : Type} (f : Nat → Option α) {count last : Nat} (few : last < count)
    (found : (f last).isSome = true) :
    ∃ first ≤ last, ∃ a, (List.range count).findSome? f = some a ∧ f first = some a ∧
      ∀ before < first, f before = none := by
  have some := List.findSome?_isSome_iff.mpr ⟨last, List.mem_range.mpr few, found⟩
  obtain ⟨a, result⟩ := Option.isSome_iff_exists.mp some
  obtain ⟨front, first, back, split, here, none⟩ := List.findSome?_eq_some_iff.mp result
  have increasing : (front ++ first :: back).Pairwise (· < ·) := split ▸ List.pairwise_lt_range
  have inFront : ∀ before < first, before < count → before ∈ front := by
    intro before less inRange
    have listed : before ∈ front ++ first :: back := split ▸ List.mem_range.mpr inRange
    have behind := (List.pairwise_cons.mp (List.pairwise_append.mp increasing).2.1).1
    rcases List.mem_append.mp listed with inFront | inBack
    · exact inFront
    · rcases List.mem_cons.mp inBack with rfl | later
      · exact absurd less (Nat.lt_irrefl _)
      · exact absurd (behind before later) (Nat.lt_asymm less)
  have inRange : first < count := List.mem_range.mp (split ▸ by simp)
  refine ⟨first, ?_, a, result, here, fun before less =>
    none before (inFront before less (by omega))⟩
  by_contra after
  rw [none last (inFront last (by omega) few)] at found
  cases found

theorem Interval.Proper.contains_value (proper : i.Proper) : i.contains i.value = true := by
  have low := proper.low
  have high := proper.high
  unfold Interval.contains
  split <;> simp only [Bool.and_eq_true, decide_eq_true_eq] <;> omega

theorem quarters_le_iff {n m : Nat} : quarters n ≤ quarters m ↔ n ≤ m := by
  rw [quarters, quarters, Nat.mul_le_mul_left_iff (by decide),
    Nat.mul_le_mul_right_iff (Nat.two_pow_pos places)]

theorem dist_quarters (n m : Nat) : (quarters n).dist (quarters m) = quarters (n.dist m) := by
  rw [quarters, quarters, quarters, Nat.dist_mul_left, Nat.dist_mul_right]

variable {n mantissa exponent double : Nat}

theorem ofNat_zero : Binary64.ofNat 0 = .finite false 0 0 := by decide +kernel

theorem pos_of_ofNat_eq (normal : IsNormal mantissa exponent)
    (rounds : Binary64.ofNat n = .finite false mantissa exponent) : 0 < n := by
  rw [Nat.pos_iff_ne_zero]
  rintro rfl
  rw [ofNat_zero] at rounds
  cases rounds
  exact absurd normal.positive (Nat.lt_irrefl 0)

/-- The whole numbers with a double are those in its interval. -/
theorem ofNat_eq_finite_iff (normal : IsNormal mantissa exponent)
    (finite : exponent ≤ maxExponent) :
    Binary64.ofNat n = .finite false mantissa exponent ↔
      (Interval.around mantissa exponent).contains (quarters n) = true := by
  obtain rfl | positive := Nat.eq_zero_or_pos n
  · refine ⟨fun rounds => absurd (pos_of_ofNat_eq normal rounds) (Nat.lt_irrefl 0), ?_⟩
    intro inside
    have power := Nat.two_pow_pos exponent
    have least := Nat.mul_le_mul_right (2 ^ exponent) normal.least
    have near := ((contains_around_iff normal).mp inside).1
    obtain ⟨_, gap⟩ | ⟨_, gap⟩ := gapBelow_eq mantissa <;>
    · rw [gap, quarters, Nat.zero_mul] at near
      omega
  · exact ofRatio_eq_finite_iff positive normal finite

/-- The whole numbers with a finite double are no larger than the powers of ten that are tried. -/
theorem lt_of_contains (normal : IsNormal mantissa exponent) (finite : exponent ≤ maxExponent)
    (inside : (Interval.around mantissa exponent).contains (quarters n) = true) : n < 10 ^ 309 := by
  have near := ((contains_around_iff normal).mp inside).2.1
  have most := Nat.mul_le_mul_right (2 ^ exponent) (Nat.le_sub_one_of_lt normal.below)
  have power : 2 ^ exponent ≤ 2 ^ maxExponent := Nat.pow_le_pow_right (by decide) finite
  have bound : 2 ^ 55 * 2 ^ maxExponent ≤ quarters (10 ^ 309) := by decide +kernel
  have positive := Nat.two_pow_pos exponent
  by_contra large
  have more := quarters_le_iff.mpr (Nat.le_of_not_lt large)
  omega

/-- The shortest decimal of a double that is a whole number is one too. -/
theorem exists_shortest (normal : IsNormal mantissa exponent) (finite : exponent ≤ maxExponent)
    (rounds : Binary64.ofNat n = .finite false mantissa exponent)
    (natural : mantissa * 2 ^ exponent = double * 2 ^ places) :
    ∃ c p : Nat, shortest .up mantissa exponent = ⟨c, p⟩ ∧ IsShortest n (c * 10 ^ p) := by
  have proper := proper_around normal
  have shared : ∀ other, Binary64.ofNat other = Binary64.ofNat n ↔
      (Interval.around mantissa exponent).contains (quarters other) = true := by
    intro other
    rw [rounds, ofNat_eq_finite_iff normal finite]
  have value : (Interval.around mantissa exponent).value = quarters double := by
    rw [around_eq normal, quarters, natural]
  have grid : ∀ p ≤ 309, coarsest - ((309 - p : Nat) : Int) = (p : Int) := by
    intro p few
    unfold coarsest
    omega
  -- the number itself lies on the grid of the whole numbers
  have whole : (onGrid? .up (Interval.around mantissa exponent)
      (coarsest - ((309 - 0 : Nat) : Int))).isSome = true := by
    rw [grid 0 (by decide), onGrid?_natCast, Option.isSome_map]
    have inside : (Interval.around mantissa exponent).contains (double * quarters (10 ^ 0)) =
        true := by
      rw [mul_quarters, Nat.pow_zero, Nat.mul_one, ← value]
      exact proper.contains_value
    exact isSome_nearest? proper (quarters_pos (by decide)) inside
  obtain ⟨first, early, d, result, here, earlier⟩ :=
    exists_first (fun i : Nat => onGrid? .up (Interval.around mantissa exponent) (coarsest - i))
      (by decide : 309 - 0 < gridCount) whole
  obtain ⟨p, few, rfl⟩ : ∃ p ≤ 309, first = 309 - p := ⟨309 - first, by omega, by omega⟩
  rw [grid p few, onGrid?_natCast] at here
  obtain ⟨c, found, rfl⟩ := Option.map_eq_some_iff.mp here
  have step : 0 < quarters (10 ^ p) := quarters_pos (Nat.pow_pos (by decide))
  refine ⟨c, p, by rw [shortest, result, Option.getD_some], ?_⟩
  constructor
  case same =>
    rw [shared, ← mul_quarters]
    exact contains_of_nearest? found
  case fewest =>
    intro other k same zeros
    by_cases fine : k ≤ p
    · exact Nat.dvd_mul_left_of_dvd (Nat.pow_dvd_pow 10 fine) c
    · -- a coarser grid would have been taken
      exfalso
      obtain ⟨q, rfl⟩ := zeros
      have inside := (shared _).mp same
      have positive := pos_of_ofNat_eq normal (same.trans rounds)
      have power : 10 ^ k ≤ 10 ^ k * q := Nat.le_of_dvd positive (Nat.dvd_mul_right _ _)
      have digits : k < 309 := (pow_lt_pow_iff_right₀ (by decide : 1 < 10)).mp
        (Nat.lt_of_le_of_lt power (lt_of_contains normal finite inside))
      have missed := earlier (309 - k) (by omega)
      rw [grid k digits.le, onGrid?_natCast, Option.map_eq_none_iff] at missed
      have power : 0 < quarters (10 ^ k) := quarters_pos (Nat.pow_pos (by decide : 0 < 10))
      rw [Nat.mul_comm, ← mul_quarters] at inside
      have hit := isSome_nearest? proper power inside
      rw [missed] at hit
      cases hit
  case nearest =>
    intro number other numbers same zeros
    rw [rounds, natAbs?_finite, unitsPerOne_eq, natural] at numbers
    obtain rfl := Nat.eq_of_mul_eq_mul_right (Nat.two_pow_pos places) numbers
    obtain ⟨q, rfl⟩ := zeros p (Nat.dvd_mul_left _ _)
    have inside := (shared _).mp same
    rw [Nat.mul_comm, ← mul_quarters] at inside
    have near := dist_nearest? proper step found inside
    rw [mul_quarters, mul_quarters, value, dist_quarters, dist_quarters, quarters_le_iff,
      quarters_le_iff, Nat.mul_comm q] at near
    refine ⟨near.1, fun close => ?_⟩
    rw [Nat.mul_comm]
    exact Nat.mul_le_mul_right _ (near.2 close)

/-- Where the last place of a double is no more than one, its interval holds one whole number. -/
theorem eq_of_contains (normal : IsNormal mantissa exponent)
    (natural : mantissa * 2 ^ exponent = double * 2 ^ places) (fine : exponent ≤ places)
    (inside : (Interval.around mantissa exponent).contains (quarters n) = true) : n = double := by
  obtain ⟨near, nearToo, _⟩ := (contains_around_iff normal).mp inside
  have power : 2 ^ exponent ≤ 2 ^ places := Nat.pow_le_pow_right (by decide) fine
  have gap := gapBelow_le mantissa exponent
  rw [natural, quarters] at near nearToo
  have positive := Nat.two_pow_pos places
  exact @eq_of_mul_lt_add n double (2 ^ places) (by omega) (by omega)

theorem exponent_le_places (normal : IsNormal mantissa exponent) (small : n < 2 ^ 53)
    (inside : (Interval.around mantissa exponent).contains (quarters n) = true) :
    exponent ≤ places := by
  obtain ⟨near, _, _⟩ := (contains_around_iff normal).mp inside
  rw [quarters] at near
  by_contra coarse
  have power : 2 * 2 ^ places ≤ 2 ^ exponent := by
    rw [← Nat.pow_succ']
    exact Nat.pow_le_pow_right (by decide) (Nat.lt_of_not_le coarse)
  have least := Nat.mul_le_mul_right (2 ^ places) (Nat.le_sub_one_of_lt small)
  have mantissas : gapBelow mantissa * 2 ^ exponent + (2 ^ 54 - 1) * 2 ^ exponent ≤
      4 * (mantissa * 2 ^ exponent) := by
    rw [← Nat.add_mul, ← Nat.mul_assoc]
    apply Nat.mul_le_mul_right
    have long := normal.least
    obtain ⟨_, gap⟩ | ⟨_, gap⟩ := gapBelow_eq mantissa <;> omega
  have positive := Nat.two_pow_pos places
  omega

/-- Numbers with one double differ by no more than four quarters of its last place. -/
theorem quarters_le_add (normal : IsNormal mantissa exponent) {m : Nat}
    (inside : (Interval.around mantissa exponent).contains (quarters n) = true)
    (insideToo : (Interval.around mantissa exponent).contains (quarters m) = true) :
    quarters n ≤ quarters m + 4 * 2 ^ exponent := by
  have near := ((contains_around_iff normal).mp inside).2.1
  have nearToo := ((contains_around_iff normal).mp insideToo).1
  have gap := gapBelow_le mantissa exponent
  omega

end Shortest

open Shortest Binary64

variable {n m : Nat}

/-- A whole number in reach of the doubles has one that is a whole number. -/
theorem exists_ofNat (positive : 0 < n) (small : n < 2 ^ 128) :
    ∃ mantissa exponent double, IsNormal mantissa exponent ∧ exponent ≤ maxExponent ∧
      Binary64.ofNat n = .finite false mantissa exponent ∧
      mantissa * 2 ^ exponent = double * 2 ^ places := by
  obtain ⟨mantissa, exponent, rounds, double, natural⟩ := ofRatio_whole small
  obtain ⟨_, infinite⟩ | ⟨_, _, normal, finite, _, rounded⟩ := ofRatio_cases positive
  · cases infinite.symm.trans rounds
  · cases rounded.symm.trans rounds
    rw [unitsPerOne_eq, Nat.mul_comm _ double] at natural
    exact ⟨_, _, double, normal, finite, rounds, natural⟩

/-- Below `2 ^ 53` no two whole numbers have one double. -/
theorem eq_of_ofNat_eq (same : Binary64.ofNat m = Binary64.ofNat n) (small : n < 2 ^ 53) :
    m = n := by
  obtain rfl | positive := Nat.eq_zero_or_pos n
  · obtain rfl | positive := Nat.eq_zero_or_pos m
    · rfl
    · rw [ofNat_zero] at same
      obtain ⟨_, infinite⟩ | ⟨_, _, normal, _, _, rounds⟩ := ofRatio_cases positive
      · cases infinite.symm.trans same
      · cases rounds.symm.trans same
        exact absurd normal.positive (Nat.lt_irrefl 0)
  · obtain ⟨_, _, double, normal, finite, rounds, natural⟩ :=
      exists_ofNat positive (small.trans (by decide))
    have inside := (ofNat_eq_finite_iff normal finite).mp rounds
    have insideToo := (ofNat_eq_finite_iff normal finite).mp (same.trans rounds)
    have fine := exponent_le_places normal small inside
    rw [eq_of_contains normal natural fine inside, eq_of_contains normal natural fine insideToo]

namespace IsShortest

theorem of_lt (small : n < 2 ^ 53) : IsShortest n n where
  same := rfl
  fewest other k same zeros := eq_of_ofNat_eq same small ▸ zeros
  nearest double other _ same _ := by
    rw [eq_of_ofNat_eq same small]
    exact ⟨Nat.le_refl _, fun _ => Nat.le_refl _⟩

theorem eq_of_lt (shortest : IsShortest n m) (small : n < 2 ^ 53) : m = n :=
  eq_of_ofNat_eq shortest.same small

/-- Only one number is written for the numbers of a double. -/
theorem unique {other : Nat} (small : n < 2 ^ 128) (shortest : IsShortest n m)
    (again : IsShortest n other) : m = other := by
  obtain ⟨double, whole⟩ : ∃ double, (Binary64.ofNat n).natAbs? = some double := by
    obtain rfl | positive := Nat.eq_zero_or_pos n
    · exact ⟨0, by decide +kernel⟩
    · obtain ⟨_, _, double, _, _, rounds, natural⟩ := exists_ofNat positive small
      exact ⟨double, by rw [rounds, natAbs?_finite, unitsPerOne_eq, natural]⟩
  have zeros := fun k => shortest.fewest other k again.same
  have zerosToo := fun k => again.fewest m k shortest.same
  obtain ⟨near, larger⟩ := shortest.nearest double other whole again.same zerosToo
  obtain ⟨nearToo, largerToo⟩ := again.nearest double m whole shortest.same zeros
  exact Nat.le_antisymm (largerToo near) (larger nearToo)

/-- Numbers of few digits in front of their zeros are written as they are. -/
theorem eq_of_few_digits {c k : Nat} (shortest : IsShortest (c * 10 ^ k) m)
    (small : c * 10 ^ k < 2 ^ 128) (few : c < 10 ^ 15) : m = c * 10 ^ k := by
  obtain none | positive := Nat.eq_zero_or_pos (c * 10 ^ k)
  · rw [none] at shortest ⊢
    exact shortest.eq_of_lt (by decide)
  obtain ⟨mantissa, exponent, _, normal, finite, rounds, _⟩ := exists_ofNat positive small
  obtain ⟨q, rfl⟩ := shortest.fewest _ k rfl (Nat.dvd_mul_left _ _)
  have inside := (ofNat_eq_finite_iff normal finite).mp rounds
  have insideToo := (ofNat_eq_finite_iff normal finite).mp (shortest.same.trans rounds)
  have close := quarters_le_add normal inside insideToo
  have closeToo := quarters_le_add normal insideToo inside
  rw [Nat.mul_comm _ q, ← mul_quarters, ← mul_quarters] at close closeToo
  rw [← mul_quarters] at inside
  -- the digits reach behind the last place of the double
  have step : 4 * 2 ^ exponent < quarters (10 ^ k) := by
    by_contra coarse
    have near := ((contains_around_iff normal).mp inside).1
    have above := Nat.mul_le_mul_right (2 ^ exponent) normal.least
    have product := Nat.mul_le_mul (Nat.le_sub_one_of_lt few) (Nat.le_of_not_lt coarse)
    have power := Nat.two_pow_pos exponent
    have gap := gapBelow_le mantissa exponent
    omega
  have equal : q = c := eq_of_mul_lt_add (Nat.lt_of_le_of_lt closeToo (by omega))
    (Nat.lt_of_le_of_lt close (by omega))
  rw [equal, Nat.mul_comm]

end IsShortest

/-- A whole number is written as the shortest one with its double. -/
theorem exists_text_ofNat (small : n < 2 ^ 128) :
    ∃ m, (Binary64.ofNat n).text = String.ofList (Nat.toDigits 10 m) ∧ IsShortest n m := by
  obtain rfl | positive := Nat.eq_zero_or_pos n
  · exact ⟨0, by decide +kernel, .of_lt (by decide)⟩
  obtain ⟨mantissa, exponent, double, normal, finite, rounds, natural⟩ :=
    exists_ofNat positive small
  have whole : (Binary64.ofNat n).natAbs? = some double := by
    rw [rounds, natAbs?_finite, unitsPerOne_eq, natural]
  obtain ⟨c, p, decimal, shortest⟩ := exists_shortest normal finite rounds natural
  rw [Binary64.text, whole]
  dsimp only
  split
  next few =>
    -- so small a double is the number itself
    have bound : wholeBound = 10 ^ 15 := rfl
    rw [bound] at few
    have fine : exponent ≤ places := by
      by_contra coarse
      have power : 2 ^ places ≤ 2 ^ exponent :=
        Nat.pow_le_pow_right (by decide) (Nat.le_of_not_le coarse)
      have least := Nat.mul_le_mul normal.least power
      have most := Nat.mul_le_mul_right (2 ^ places) (Nat.le_sub_one_of_lt few)
      have unit := Nat.two_pow_pos places
      omega
    obtain rfl := eq_of_contains normal natural fine ((ofNat_eq_finite_iff normal finite).mp rounds)
    refine ⟨n, ?_, .of_lt (few.trans (by decide))⟩
    rw [rounds]
    rfl
  next =>
    refine ⟨_, ?_, shortest⟩
    rw [rounds, Binary64.positional, decimal]
    rfl

end BlockVerilog
