import BlockVerilog.Proofs.Number.Grammar
import BlockVerilog.Proofs.Number.Rounding
import BlockVerilog.Proofs.Numerals

/-!
Literals with a width say one number in every radix.

Two readers feed the literals: one of whole numerals, and behind it that of doubles. Where both read
a text they do not contradict each other, since whole numerals round to whole doubles.
-/

namespace BlockVerilog

open Numeral Text

/-- The literal that stands for no number. -/
def dontCare (radix : Radix) : String := String.ofList ['1', '\x27', radix.letter, 'x']

/-- The width that a number needs: its binary digits, and one for zero. -/
structure HasWidth (n width : Nat) : Prop where
  /-- No digit is cut off. -/
  fits : n < 2 ^ width
  zero : n = 0 → width = 1
  least : n ≠ 0 → ∀ other, n < 2 ^ other → width ≤ other

/-- A literal says a number in a radix: behind its width in decimal, the quote and the letter of the
radix stands the numeral of the number. -/
def IsSized (radix : Radix) (n : Nat) (literal : String) : Prop :=
  ∃ width front digits, literal.toList = front ++ '\x27' :: radix.letter :: digits ∧
    HasWidth n width ∧ IsNumeral 10 width front ∧ IsNumeral radix.base n digits

/-- An optional plus sign and decimal digits, which write a number. -/
inductive IsPlain : List Char → Nat → Prop
  | bare {digits : List Char} {n : Nat} (nonempty : digits ≠ []) (read : read? 10 digits = some n) :
      IsPlain digits n
  | plus {digits : List Char} {n : Nat} (nonempty : digits ≠ []) (read : read? 10 digits = some n) :
      IsPlain ('+' :: digits) n

/-- A double that is not finite, below zero or fractional. -/
def Binary64.IsNoUnsigned (x : Binary64) : Prop :=
  x.toRat? = none ∨ ∃ value, x.toRat? = some value ∧ (value < 0 ∨ ∀ whole : ℤ, value ≠ whole)

/-- What the literals of a text say. -/
structure LiteralsAgree (text : String) : Prop where
  alike : (∀ radix, sizedLiteral radix text = dontCare radix) ∨
    ∃ n < 2 ^ 128, ∀ radix, IsSized radix n (sizedLiteral radix text)
  plain : ∀ n < 2 ^ 128, IsPlain (trim text.toList) n →
    ∀ radix, IsSized radix n (sizedLiteral radix text)
  noNumber : ¬ IsNumber (trim text.toList) → ∀ radix, sizedLiteral radix text = dontCare radix
  noUnsigned : ∀ x, parseNumber (trim text.toList) = some x → x.IsNoUnsigned →
    ∀ radix, sizedLiteral radix text = dontCare radix
  /-- What is no whole numeral below the bound is read as a double. -/
  double : (∀ n < 2 ^ 128, ¬ IsPlain (trim text.toList) n) →
    ∀ (x : Binary64) (n : ℕ), parseNumber (trim text.toList) = some x →
      x.toRat? = some (n : ℚ) → ∀ radix,
        if n < 2 ^ 64 then IsSized radix n (sizedLiteral radix text)
        else sizedLiteral radix text = dontCare radix

theorem quote_not_mem {base n : Nat} {digits : List Char} (numeral : IsNumeral base n digits) :
    '\x27' ∉ digits := fun quote =>
  absurd (isSome_digit?_of_read? numeral.read _ quote) (by decide)

/-- What stands behind the letter of a literal is the numeral of the number that it says. -/
theorem IsSized.numeral {radix : Radix} {n : Nat} {literal : String} {front digits : List Char}
    (sized : IsSized radix n literal)
    (spelled : literal.toList = front ++ '\x27' :: radix.letter :: digits)
    (noQuote : '\x27' ∉ digits) : IsNumeral radix.base n digits := by
  obtain ⟨_, other, others, spelledAgain, _, _, numeral⟩ := sized
  have letter : '\x27' ≠ radix.letter := by cases radix <;> decide
  obtain ⟨_, same⟩ := Numerals.append_mark_inj (spelledAgain.symm.trans spelled)
    (List.not_mem_cons_of_ne_of_not_mem letter (quote_not_mem numeral))
    (List.not_mem_cons_of_ne_of_not_mem letter noQuote)
  obtain ⟨_, rfl⟩ := List.cons.inj same
  exact numeral

/-- A literal says one number. -/
theorem IsSized.unique {radix : Radix} {n m : Nat} {literal : String}
    (sized : IsSized radix n literal) (again : IsSized radix m literal) : n = m := by
  obtain ⟨_, _, _, spelled, _, _, numeral⟩ := again
  have read := (sized.numeral spelled (quote_not_mem numeral)).read
  exact Option.some.inj (read.symm.trans numeral.read)

theorem not_isSized_dontCare (radix : Radix) (n : Nat) : ¬ IsSized radix n (dontCare radix) := by
  intro sized
  have spelled : (dontCare radix).toList = ['1'] ++ '\x27' :: radix.letter :: ['x'] :=
    String.toList_ofList
  have numeral := sized.numeral spelled (by decide)
  exact absurd (isSome_digit?_of_read? numeral.read 'x' List.mem_cons_self) (by decide)

theorem hasWidth_bitWidth (n : Nat) : HasWidth n (bitWidth n) := by
  unfold bitWidth
  split
  next zero => exact ⟨by omega, fun _ => rfl, fun nonzero => absurd zero nonzero⟩
  next nonzero =>
    exact ⟨Nat.lt_log2_self, fun zero => absurd zero nonzero,
      fun _ _ fits => (Nat.log2_lt nonzero).mpr fits⟩

theorem sizedLiteral_of_some {text : String} {n : Nat}
    (reads : parseUnsigned text.toList = some n) (radix : Radix) :
    IsSized radix n (sizedLiteral radix text) := by
  have base : 1 < radix.base ∧ radix.base ≤ 16 := by cases radix <;> decide
  refine ⟨bitWidth n, Nat.toDigits 10 (bitWidth n), Nat.toDigits radix.base n, ?_,
    hasWidth_bitWidth n, isNumeral_toDigits (by decide) (by decide) _,
    isNumeral_toDigits base.1 base.2 n⟩
  rw [sizedLiteral, reads, String.toList_ofList]

theorem sizedLiteral_of_none {text : String} (reads : parseUnsigned text.toList = none)
    (radix : Radix) : sizedLiteral radix text = dontCare radix := by
  rw [sizedLiteral, reads]
  rfl

theorem digit?_lt_ten {c : Char} {d : Nat} :
    (d < 10 ∧ digit? c = some d) ↔ c.isDigit = true ∧ c.toNat - '0'.toNat = d := by
  constructor
  · rintro ⟨few, value⟩
    rw [← digitChar_of_digit? value]
    have checked : ∀ d < 10, (Nat.digitChar d).isDigit = true ∧
        (Nat.digitChar d).toNat - '0'.toNat = d := by decide
    exact checked d few
  · rintro ⟨digit, rfl⟩
    have below : c.toNat ≤ 57 := (Char.isDigit_iff_toNat.mp digit).2
    refine ⟨?_, if_pos digit⟩
    change c.toNat - 48 < 10
    omega

/-- Decimal digits write the number that the readers take them for. -/
theorem read?_ten {digits : List Char} {n : Nat} :
    read? 10 digits = some n ↔ (∀ c ∈ digits, c.isDigit = true) ∧ ofDigits digits = n := by
  induction digits using List.reverseRecOn generalizing n with
  | nil =>
      refine ⟨fun read => ⟨fun c none => absurd none List.not_mem_nil, Option.some.inj read⟩, ?_⟩
      rintro ⟨_, rfl⟩
      rfl
  | append_singleton front last inductionHypothesis =>
      have appended : ofDigits (front ++ [last]) =
          10 * ofDigits front + (last.toNat - '0'.toNat) := by
        rw [ofDigits, Nat.ofDigitChars_append]
        rfl
      rw [read?_concat, appended, List.forall_mem_append, List.forall_mem_singleton]
      constructor
      · rintro ⟨m, d, read, few, value, rfl⟩
        obtain ⟨digits, rfl⟩ := inductionHypothesis.mp read
        obtain ⟨digit, rfl⟩ := digit?_lt_ten.mp ⟨few, value⟩
        exact ⟨⟨digits, digit⟩, by rw [Nat.mul_comm]⟩
      · rintro ⟨⟨digits, digit⟩, rfl⟩
        obtain ⟨few, value⟩ := digit?_lt_ten.mpr ⟨digit, rfl⟩
        exact ⟨_, _, inductionHypothesis.mpr ⟨digits, rfl⟩, few, value, by rw [Nat.mul_comm]⟩

theorem digits?_eq_some_iff {text : List Char} {n : Nat} :
    digits? text = some n ↔ text ≠ [] ∧ read? 10 text = some n := by
  rw [read?_ten, ← and_assoc, ← List.all_eq_true]
  unfold digits?
  split
  next holds =>
    exact ⟨fun same => ⟨holds, Option.some.inj same⟩, fun same => congrArg some same.2⟩
  next fails => exact ⟨fun nothing => (nomatch nothing), fun same => absurd same.1 fails⟩

/-- A whole numeral is read as the number that it writes, if that is below the bound. -/
theorem parseNat_eq_some_iff {bound n : Nat} {text : List Char} :
    parseNat bound text = some n ↔ IsPlain text n ∧ n < bound := by
  simp only [parseNat, Option.filter_eq_some_iff, decide_eq_true_eq, digits?_eq_some_iff]
  refine and_congr_left fun _ => ?_
  split
  next rest =>
    refine ⟨fun holds => .plus holds.1 holds.2, fun plain => ?_⟩
    cases plain with
    | bare _ read => exact absurd ((read?_ten.mp read).1 '+' List.mem_cons_self) (by decide)
    | plus nonempty read => exact ⟨nonempty, read⟩
  next noPlus =>
    refine ⟨fun holds => .bare holds.1 holds.2, fun plain => ?_⟩
    cases plain with
    | bare nonempty read => exact ⟨nonempty, read⟩
    | plus => exact absurd rfl (noPlus _)

theorem toBinary64_whole (n : Nat) : Decimal.toBinary64 false ⟨n, 0⟩ = .ofRatio false n 1 := by
  change (if n = 0 then Binary64.ofRatio false 0 1
    else if 400 < 0 then .infinite false else .ofRatio false (n * Nat.pow 10 0) 1) = _
  split
  next zero => rw [zero]
  next => rw [if_neg (by decide), Nat.pow_eq, Nat.pow_zero, Nat.mul_one]

/-- As a double, a whole numeral is its number rounded. -/
theorem IsPlain.parseNumber_eq {text : List Char} {n : Nat} (plain : IsPlain text n) :
    parseNumber text = some (.ofRatio false n 1) := by
  obtain ⟨digits, nonempty, read, cut⟩ : ∃ digits, digits ≠ [] ∧ read? 10 digits = some n ∧
      cutSign text = (false, digits) := by
    cases plain with
    | bare nonempty read =>
        have unsigned := IsDigits.unsigned ⟨nonempty, (read?_ten.mp read).1⟩
        exact ⟨text, nonempty, read, cutSign_of_ne unsigned.1 unsigned.2⟩
    | plus nonempty read => exact ⟨_, nonempty, read, rfl⟩
  obtain ⟨all, rfl⟩ := read?_ten.mp read
  rw [parseNumber_digits cut ⟨nonempty, all⟩, toBinary64_whole]

theorem parseUnsigned_of_plain {text : List Char} {n : Nat} (small : n < 2 ^ 128)
    (plain : IsPlain (trim text) n) : parseUnsigned text = some n := by
  have whole : parseNat (Nat.pow 2 128) (trim text) = some n :=
    parseNat_eq_some_iff.mpr ⟨plain, small⟩
  rw [parseUnsigned, whole]

theorem parseUnsigned_of_not_plain {text : List Char}
    (other : ∀ n < 2 ^ 128, ¬ IsPlain (trim text) n) :
    parseUnsigned text = (parseNumber (trim text)).bind fun x =>
      if x.isNegative then none else x.natAbs?.filter (· < 2 ^ 64) := by
  have part : parseNat (Nat.pow 2 128) (trim text) = none := by
    refine Option.eq_none_iff_forall_ne_some.mpr fun n whole => ?_
    obtain ⟨plain, small⟩ := parseNat_eq_some_iff.mp whole
    exact other n small plain
  rw [parseUnsigned, part]
  cases parseNumber (trim text) <;> rfl

theorem parseUnsigned_lt {text : List Char} {n : Nat} (reads : parseUnsigned text = some n) :
    n < 2 ^ 128 := by
  by_cases plain : ∃ m < 2 ^ 128, IsPlain (trim text) m
  · obtain ⟨m, small, plain⟩ := plain
    obtain rfl := Option.some.inj ((parseUnsigned_of_plain small plain).symm.trans reads)
    exact small
  · push Not at plain
    rw [parseUnsigned_of_not_plain plain] at reads
    obtain ⟨x, _, unsigned⟩ := Option.bind_eq_some_iff.mp reads
    split at unsigned
    next => cases unsigned
    next =>
      have small := (Option.filter_eq_some_iff.mp unsigned).2
      rw [decide_eq_true_eq] at small
      exact small.trans (by decide)

/-- A text that is read as a double which is no natural number is no unsigned number. Whole numerals
are not among them. -/
theorem parseUnsigned_of_not_natural {text : List Char} {x : Binary64}
    (read : parseNumber (trim text) = some x) (other : ∀ n : ℕ, x.toRat? ≠ some (n : ℚ)) :
    parseUnsigned text = none := by
  have notPlain : ∀ n < 2 ^ 128, ¬ IsPlain (trim text) n := by
    intro n small plain
    obtain ⟨m, natural⟩ := Binary64.exists_toRat?_ofRatio small
    obtain rfl := Option.some.inj (plain.parseNumber_eq.symm.trans read)
    exact other m natural
  rw [parseUnsigned_of_not_plain notPlain, read, Option.bind_some]
  split
  next => rfl
  next positive =>
    have part : x.natAbs? = none := Option.eq_none_iff_forall_ne_some.mpr fun n whole =>
      other n (Binary64.toRat?_eq_natCast_iff.mpr ⟨Bool.eq_false_iff.mpr positive, whole⟩)
    rw [part]
    rfl

theorem Binary64.IsNoUnsigned.not_natural {x : Binary64} (noUnsigned : x.IsNoUnsigned) (n : ℕ) :
    x.toRat? ≠ some (n : ℚ) := by
  intro natural
  rcases noUnsigned with infinite | ⟨value, finite, below | part⟩
  · rw [natural] at infinite
    cases infinite
  · obtain rfl := Option.some.inj (natural.symm.trans finite)
    exact absurd below (not_lt.mpr n.cast_nonneg)
  · obtain rfl := Option.some.inj (natural.symm.trans finite)
    exact part n (by norm_cast)

theorem parseUnsigned_of_not_isNumber {text : List Char} (noNumber : ¬ IsNumber (trim text)) :
    parseUnsigned text = none := by
  rw [← isSome_parseNumber, Option.not_isSome_iff_eq_none] at noNumber
  have notPlain : ∀ n < 2 ^ 128, ¬ IsPlain (trim text) n := by
    intro n _ plain
    rw [plain.parseNumber_eq] at noNumber
    cases noNumber
  rw [parseUnsigned_of_not_plain notPlain, noNumber]
  rfl

/-- The literals of a text say one unsigned number in every radix, or none in any. -/
theorem sizedLiterals_agree (text : String) : LiteralsAgree text where
  alike := by
    cases reads : parseUnsigned text.toList with
    | none => exact .inl (sizedLiteral_of_none reads)
    | some n => exact .inr ⟨n, parseUnsigned_lt reads, sizedLiteral_of_some reads⟩
  plain n small plain := sizedLiteral_of_some (parseUnsigned_of_plain small plain)
  noNumber noNumber := sizedLiteral_of_none (parseUnsigned_of_not_isNumber noNumber)
  noUnsigned x read noUnsigned :=
    sizedLiteral_of_none (parseUnsigned_of_not_natural read noUnsigned.not_natural)
  double other x n read natural radix := by
    obtain ⟨positive, whole⟩ := Binary64.toRat?_eq_natCast_iff.mp natural
    have reads := parseUnsigned_of_not_plain other
    rw [read, Option.bind_some, positive, if_neg Bool.false_ne_true, whole] at reads
    split
    next small =>
      rw [Option.filter_some, if_pos (decide_eq_true small)] at reads
      exact sizedLiteral_of_some reads radix
    next large =>
      rw [Option.filter_some, if_neg (by simpa using large)] at reads
      exact sizedLiteral_of_none reads radix

example : sizedLiteral .hex " +255 " = "8\x27hff" ∧ sizedLiteral .octal "4.0" = "3\x27o4" := by
  decide +kernel

end BlockVerilog
