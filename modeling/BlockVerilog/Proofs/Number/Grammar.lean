import Mathlib.Data.List.TakeWhile
import BlockVerilog.Proofs.Number.Numeral

/-!
The grammar of numbers.

A number is an optional sign in front of a decimal numeral or of one of three words. The reader of
doubles takes exactly the texts of this grammar.
-/

namespace BlockVerilog.Numeral

/-- One decimal digit or more. -/
def IsDigits (text : List Char) : Prop := text ≠ [] ∧ ∀ c ∈ text, c.isDigit = true

/-- A text behind an optional sign. -/
inductive Signed (body : List Char → Prop) : List Char → Prop
  | bare {text : List Char} (holds : body text) : Signed body text
  | plus {text : List Char} (holds : body text) : Signed body ('+' :: text)
  | minus {text : List Char} (holds : body text) : Signed body ('-' :: text)

/-- The exponent part that may end a numeral. -/
inductive IsExponent : List Char → Prop
  | absent : IsExponent []
  | present {mark : Char} {power : List Char} (isMark : mark = 'e' ∨ mark = 'E')
      (holds : Signed IsDigits power) : IsExponent (mark :: power)

/-- A decimal numeral without sign: digits, with a point among or beside them or without one. -/
inductive IsDecimal : List Char → Prop
  | whole {digits tail : List Char} (holds : IsDigits digits) (exponent : IsExponent tail) :
      IsDecimal (digits ++ tail)
  | pointed {whole places tail : List Char} (front : ∀ c ∈ whole, c.isDigit = true)
      (back : ∀ c ∈ places, c.isDigit = true) (either : whole ≠ [] ∨ places ≠ [])
      (exponent : IsExponent tail) : IsDecimal (whole ++ '.' :: (places ++ tail))

/-- A number without its sign; the words are taken in any case. -/
def IsMagnitude (text : List Char) : Prop :=
  IsDecimal text ∨ String.ofList (text.map Char.toLower) ∈ ["nan", "inf", "infinity"]

/-- A text that is a number. -/
def IsNumber : List Char → Prop := Signed IsMagnitude

theorem cutSign_of_ne {text : List Char} (plus : text.head? ≠ some '+')
    (minus : text.head? ≠ some '-') : cutSign text = (false, text) := by
  unfold cutSign
  split
  · exact absurd rfl minus
  · exact absurd rfl plus
  · rfl

/-- A text that may have a sign is one that holds what it should behind the sign. -/
theorem signed_iff {body : List Char → Prop}
    (unsigned : ∀ {text}, body text → text.head? ≠ some '+' ∧ text.head? ≠ some '-')
    {text : List Char} : Signed body text ↔ body (cutSign text).2 := by
  constructor
  · rintro (holds | holds | holds)
    · rw [cutSign_of_ne (unsigned holds).1 (unsigned holds).2]
      exact holds
    · exact holds
    · exact holds
  · intro holds
    unfold cutSign at holds
    split at holds
    · exact .minus holds
    · exact .plus holds
    · exact .bare holds

/-- Digits are cut off a text that goes on with something else. -/
theorem cut_digits {digits rest : List Char} (all : ∀ c ∈ digits, c.isDigit = true)
    (parted : ∀ c ∈ rest.head?, c.isDigit = false) :
    (digits ++ rest).takeWhile Char.isDigit = digits ∧
      (digits ++ rest).dropWhile Char.isDigit = rest := by
  rw [List.takeWhile_append_of_pos all, List.dropWhile_append_of_pos all]
  cases rest with
  | nil => simp
  | cons c rest => simp_all

theorem isSome_digits? {text : List Char} : (digits? text).isSome = true ↔ IsDigits text := by
  unfold digits? IsDigits
  rw [← List.all_eq_true]
  split
  next holds => exact ⟨fun _ => holds, fun _ => rfl⟩
  next fails =>
    exact ⟨fun nothing => (Bool.false_ne_true nothing).elim, fun holds => absurd holds fails⟩

theorem IsDigits.unsigned {text : List Char} (digits : IsDigits text) :
    text.head? ≠ some '+' ∧ text.head? ≠ some '-' := by
  cases text with
  | nil => exact absurd rfl digits.1
  | cons c rest =>
      have digit := digits.2 c List.mem_cons_self
      simp only [List.head?_cons, ne_eq, Option.some.injEq]
      constructor <;>
      · rintro rfl
        cases digit

theorem isSome_exponent? {text : List Char} :
    (exponent? text).isSome = true ↔ IsExponent text := by
  cases text with
  | nil => exact ⟨fun _ => .absent, fun _ => rfl⟩
  | cons mark rest =>
      rw [exponent?]
      split
      next isMark =>
        have power : IsDigits (cutSign rest).2 ↔ IsExponent (mark :: rest) := by
          rw [← signed_iff IsDigits.unsigned]
          refine ⟨.present isMark, fun exponent => ?_⟩
          cases exponent with
          | present _ holds => exact holds
        rw [← power, ← isSome_digits?]
        cases given : digits? (cutSign rest).2 <;> simp [given]
      next other =>
        refine ⟨fun nothing => (Bool.false_ne_true nothing).elim, fun exponent => ?_⟩
        cases exponent with
        | present isMark _ => exact absurd isMark other

theorem IsExponent.parted {text : List Char} (exponent : IsExponent text) :
    ∀ c ∈ text.head?, c.isDigit = false := by
  cases exponent with
  | absent => simp
  | present isMark _ => rcases isMark with rfl | rfl <;> simp

theorem cut_takeWhile (text : List Char) :
    text = text.takeWhile Char.isDigit ++ text.dropWhile Char.isDigit ∧
      ∀ c ∈ text.takeWhile Char.isDigit, c.isDigit = true :=
  ⟨List.takeWhile_append_dropWhile.symm, fun _ => List.mem_takeWhile_imp⟩

/-- What may follow a point, behind the digits in front of it. -/
theorem isSome_fraction {whole text : List Char} :
    (fraction whole text).isSome = true ↔
      ∃ places tail, text = places ++ tail ∧ (∀ c ∈ places, c.isDigit = true) ∧
        (whole ≠ [] ∨ places ≠ []) ∧ IsExponent tail := by
  constructor
  · intro given
    obtain ⟨cut, all⟩ := cut_takeWhile text
    unfold fraction at given
    dsimp only at given
    split at given
    next => cases given
    next either =>
      rw [Option.isSome_map, isSome_exponent?] at given
      exact ⟨_, _, cut, all, not_and_or.mp either, given⟩
  · rintro ⟨places, tail, rfl, all, either, exponent⟩
    obtain ⟨front, back⟩ := cut_digits all exponent.parted
    unfold fraction
    rw [front, back, if_neg (not_and_or.mpr either), Option.isSome_map, isSome_exponent?]
    exact exponent

theorem isSome_decimal? {text : List Char} : (decimal? text).isSome = true ↔ IsDecimal text := by
  constructor
  · intro given
    obtain ⟨cut, all⟩ := cut_takeWhile text
    unfold decimal? at given
    split at given
    next rest point =>
      obtain ⟨places, tail, rfl, back, either, exponent⟩ := isSome_fraction.mp given
      rw [cut, point]
      exact .pointed all back either exponent
    next =>
      dsimp only at given
      split at given
      next => cases given
      next nonempty =>
        rw [Option.isSome_map, isSome_exponent?] at given
        rw [cut]
        exact .whole ⟨nonempty, all⟩ given
  · rintro (@⟨_, _, digits, exponent⟩ | @⟨_, places, tail, front, back, either, exponent⟩)
    · obtain ⟨cutFront, cutBack⟩ := cut_digits digits.2 exponent.parted
      unfold decimal?
      rw [cutFront, cutBack]
      cases exponent with
      | absent => simp [digits.1, exponent?]
      | @present mark power isMark holds =>
          have accepted := isSome_exponent?.mpr (.present isMark holds)
          rcases isMark with rfl | rfl <;> simpa [digits.1] using accepted
    · have point : ∀ c ∈ ('.' :: (places ++ tail)).head?, c.isDigit = false := by simp
      obtain ⟨cutFront, cutBack⟩ := cut_digits front point
      unfold decimal?
      rw [cutFront, cutBack]
      exact isSome_fraction.mpr ⟨_, _, rfl, back, either, exponent⟩

/-- A decimal numeral begins with a digit or a point. -/
theorem IsDecimal.unsigned {text : List Char} (decimal : IsDecimal text) :
    text.head? ≠ some '+' ∧ text.head? ≠ some '-' := by
  cases decimal with
  | @whole digits tail holds _ =>
      cases digits with
      | nil => exact absurd rfl holds.1
      | cons first rest => exact holds.unsigned
  | @pointed whole places tail front _ _ _ =>
      cases whole with
      | nil => simp
      | cons first rest =>
          have digits : IsDigits (first :: rest) := ⟨List.cons_ne_nil first rest, front⟩
          exact digits.unsigned

theorem IsMagnitude.unsigned {text : List Char} (magnitude : IsMagnitude text) :
    text.head? ≠ some '+' ∧ text.head? ≠ some '-' := by
  rcases magnitude with decimal | named
  · exact decimal.unsigned
  · cases text with
    | nil => simp
    | cons first rest =>
        simp only [List.head?_cons, ne_eq, Option.some.injEq]
        constructor <;>
        · rintro rfl
          simp [← String.toList_inj] at named

/-- The reader of doubles takes the texts that are numbers. -/
theorem isSome_parseNumber {text : List Char} :
    (parseNumber text).isSome = true ↔ IsNumber text := by
  rw [IsNumber, signed_iff IsMagnitude.unsigned, IsMagnitude, ← isSome_decimal?]
  simp only [parseNumber, List.mem_cons, List.not_mem_nil, or_false]
  split
  next named => simp [named]
  next =>
    split
    next named => simp [named]
    next => simp [*]

theorem decimal?_digits {text : List Char} (digits : IsDigits text) :
    decimal? text = some ⟨ofDigits text, 0⟩ := by
  have nothing : ∀ c ∈ ([] : List Char).head?, c.isDigit = false := by simp
  have cut := cut_digits digits.2 nothing
  rw [List.append_nil] at cut
  unfold decimal?
  rw [cut.1, cut.2]
  simp [digits.1, exponent?]

theorem toLower_of_isDigit {c : Char} (digit : c.isDigit = true) : c.toLower = c := by
  refine dif_neg fun upper => ?_
  have below : c.toNat ≤ 57 := (Char.isDigit_iff_toNat.mp digit).2
  have above : 65 ≤ c.toNat := UInt32.le_iff_toNat_le.mp upper.1
  omega

/-- Digits are the number that they write, whatever sign is cut off in front of them. -/
theorem parseNumber_digits {text digits : List Char} {negative : Bool}
    (cut : cutSign text = (negative, digits)) (all : IsDigits digits) :
    parseNumber text = some (Decimal.toBinary64 negative ⟨ofDigits digits, 0⟩) := by
  have lower : digits.map Char.toLower = digits :=
    (List.map_congr_left fun c member => toLower_of_isDigit (all.2 c member)).trans (List.map_id _)
  have noWord : ∀ word : String, word.toList.all Char.isDigit = false →
      String.ofList (digits.map Char.toLower) ≠ word := by
    rintro word other same
    rw [← same, lower, String.toList_ofList, List.all_eq_true.mpr all.2] at other
    cases other
  unfold parseNumber
  simp only [cut, noWord "nan" (by decide), noWord "inf" (by decide),
    noWord "infinity" (by decide), or_self, if_false, decimal?_digits all, Option.map_some]

end BlockVerilog.Numeral
