import Mathlib.Data.List.Induction
import BlockVerilog.Number.SizedLiteral

/-!
Numerals in a radix.

`IsNumeral` says how a number is written, by reading it: lower-case digits, the first of them not a
superfluous zero. `Nat.toDigits` gives the one text that is so.
-/

namespace BlockVerilog.Numeral

/-- The value of a lower-case digit. -/
def digit? (c : Char) : Option Nat :=
  if c.isDigit then some (c.toNat - '0'.toNat)
  else if 'a' ≤ c ∧ c ≤ 'f' then some (c.toNat - 'a'.toNat + 10)
  else none

/-- Append a digit to a number, if it is one of the base. -/
def append? (base n : Nat) (c : Char) : Option Nat :=
  ((digit? c).filter (· < base)).map (n * base + ·)

/-- The number that digits of a base write. -/
def read? (base : Nat) (digits : List Char) : Option Nat :=
  digits.foldlM (append? base) 0

/-- The lower-case numeral of a number in a base. -/
structure IsNumeral (base n : Nat) (digits : List Char) : Prop where
  nonempty : digits ≠ []
  read : read? base digits = some n
  /-- There is no superfluous zero in front. -/
  short : digits.head? = some '0' → digits = ['0']

theorem digit?_digitChar {d : Nat} (few : d < 16) : digit? (Nat.digitChar d) = some d := by
  have checked : ∀ d < 16, digit? (Nat.digitChar d) = some d := by decide
  exact checked d few

theorem digitChar_of_digit? {c : Char} {d : Nat} (value : digit? c = some d) :
    Nat.digitChar d = c := by
  have decimal : ∀ d < 10, (Nat.digitChar d).toNat = d + 48 := by decide
  have letter : ∀ d < 6, (Nat.digitChar (d + 10)).toNat = d + 97 := by decide
  unfold digit? at value
  split at value
  next isDigit =>
    obtain ⟨above, below⟩ := Char.isDigit_iff_toNat.mp isDigit
    obtain rfl := Option.some.inj value
    change 48 ≤ c.toNat at above
    change c.toNat ≤ 57 at below
    refine Char.toNat_inj.mp ((decimal (c.toNat - 48) (by omega)).trans ?_)
    omega
  next =>
    split at value
    next range =>
      obtain rfl := Option.some.inj value
      have above : 97 ≤ c.toNat := range.1
      have below : c.toNat ≤ 102 := range.2
      refine Char.toNat_inj.mp ((letter (c.toNat - 97) (by omega)).trans ?_)
      omega
    next => cases value

theorem append?_eq_some_iff {base n m : Nat} {c : Char} :
    append? base n c = some m ↔ ∃ d < base, digit? c = some d ∧ n * base + d = m := by
  simp only [append?, Option.map_eq_some_iff, Option.filter_eq_some_iff, decide_eq_true_eq]
  constructor
  · rintro ⟨d, ⟨value, below⟩, same⟩
    exact ⟨d, below, value, same⟩
  · rintro ⟨d, below, value, same⟩
    exact ⟨d, ⟨value, below⟩, same⟩

theorem read?_concat {base m : Nat} {digits : List Char} {last : Char} :
    read? base (digits ++ [last]) = some m ↔
      ∃ n d, read? base digits = some n ∧ d < base ∧ digit? last = some d ∧ n * base + d = m := by
  simp only [read?, List.foldlM_append, List.foldlM_cons, List.foldlM_nil, Option.bind_eq_bind,
    Option.bind_eq_some_iff, Option.pure_def, append?_eq_some_iff]
  constructor
  · rintro ⟨n, before, _, ⟨d, below, value, rfl⟩, same⟩
    exact ⟨n, d, before, below, value, Option.some.inj same⟩
  · rintro ⟨n, d, before, below, value, rfl⟩
    exact ⟨n, before, _, ⟨d, below, value, rfl⟩, rfl⟩

/-- What a numeral is made of are digits. -/
theorem isSome_digit?_of_read? {base n : Nat} {digits : List Char}
    (read : read? base digits = some n) : ∀ c ∈ digits, (digit? c).isSome = true := by
  induction digits using List.reverseRecOn generalizing n with
  | nil => exact fun c none => absurd none List.not_mem_nil
  | append_singleton front last inductionHypothesis =>
      obtain ⟨m, d, before, _, value, _⟩ := read?_concat.mp read
      rw [List.forall_mem_append, List.forall_mem_singleton, value]
      exact ⟨inductionHypothesis before, rfl⟩

variable {base : Nat} (several : 1 < base) (few : base ≤ 16)
include several few

theorem read?_toDigits (n : Nat) : read? base (Nat.toDigits base n) = some n := by
  induction n using Nat.strongRecOn with
  | ind n inductionHypothesis =>
      have digit : ∀ d < base, digit? (Nat.digitChar d) = some d := fun d below =>
        digit?_digitChar (by omega)
      rw [Nat.toDigits_eq_if several]
      split
      next below =>
        have single : read? base ([] ++ [Nat.digitChar n]) = some n :=
          read?_concat.mpr ⟨0, n, rfl, below, digit n below, by omega⟩
        exact single
      next above =>
        have before := inductionHypothesis (n / base) (Nat.div_lt_self (by omega) several)
        have last : n % base < base := Nat.mod_lt n (by omega)
        exact read?_concat.mpr ⟨_, _, before, last, digit _ last, Nat.div_add_mod' n base⟩

theorem head?_toDigits_ne {n : Nat} (positive : 0 < n) :
    (Nat.toDigits base n).head? ≠ some '0' := by
  induction n using Nat.strongRecOn with
  | ind n inductionHypothesis =>
      rw [Nat.toDigits_eq_if several]
      split
      next below =>
        rw [List.head?_cons, ne_eq, Option.some.injEq, Nat.digitChar_eq_zero]
        omega
      next above =>
        have before := inductionHypothesis (n / base) (Nat.div_lt_self positive several)
          (Nat.div_pos (by omega) (by omega))
        cases front : Nat.toDigits base (n / base) with
        | nil => exact absurd front Nat.toDigits_ne_nil
        | cons first rest => rwa [front] at before

theorem isNumeral_toDigits (n : Nat) : IsNumeral base n (Nat.toDigits base n) where
  nonempty := Nat.toDigits_ne_nil
  read := read?_toDigits several few n
  short zero := by
    obtain rfl | positive := n.eq_zero_or_pos
    · exact Nat.toDigits_zero base
    · exact absurd zero (head?_toDigits_ne several few positive)

omit few in
theorem IsNumeral.eq_toDigits {n : Nat} {digits : List Char} (numeral : IsNumeral base n digits) :
    digits = Nat.toDigits base n := by
  induction digits using List.reverseRecOn generalizing n with
  | nil => exact absurd rfl numeral.nonempty
  | append_singleton front last inductionHypothesis =>
      obtain ⟨m, d, before, below, value, rfl⟩ := read?_concat.mp numeral.read
      have digits : Nat.toDigits base d = [last] := by
        rw [Nat.toDigits_of_lt_base below, digitChar_of_digit? value]
      cases front with
      | nil =>
          obtain rfl := Option.some.inj before
          rw [Nat.zero_mul, Nat.zero_add, digits]
          rfl
      | cons first rest =>
          have noZero : first ≠ '0' := fun same => by
            have alone := numeral.short (by rw [same]; rfl)
            simp at alone
          have shorter : IsNumeral base m (first :: rest) :=
            ⟨List.cons_ne_nil first rest, before, fun zero =>
              absurd (Option.some.inj zero) noZero⟩
          have spelled := inductionHypothesis shorter
          have positive : 0 < m := by
            refine Nat.pos_of_ne_zero fun zero => noZero ?_
            rw [zero, Nat.toDigits_zero] at spelled
            exact (List.cons.inj spelled).1
          rw [spelled, ← digits, Nat.toDigits_append_toDigits several positive below,
            Nat.mul_comm base]

end BlockVerilog.Numeral
