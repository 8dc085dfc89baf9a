import BlockVerilog.Number.Decimal

/-!
Numerals read by scaling: a significand of 64 bits, times or divided by a power of ten in doubles.

`Decimal.ofLeading` keeps the digits that fit, and `Decimal.scaled` rounds the significand, the
power and the result one by one. The last digits of the number can therefore differ from those of
the double nearest to the numeral, which is `Decimal.toBinary64`.
-/

namespace BlockVerilog

namespace Binary64

/-- A number times a finite one from zero on, rounded. -/
def times (x factor : Binary64) : Binary64 :=
  match x, factor.units? with
  | finite negative mantissa exponent, some units =>
      ofRatio negative (mantissa * Nat.pow 2 exponent * units) (unitsPerOne * unitsPerOne)
  | x, _ => x

/-- A number divided by a finite one above zero, rounded. -/
def dividedBy (x divisor : Binary64) : Binary64 :=
  match x, divisor.units? with
  | finite negative mantissa exponent, some units =>
      ofRatio negative (mantissa * Nat.pow 2 exponent) units
  | x, _ => x

/-- The double nearest to a power of ten. -/
def powerOfTen (n : Nat) : Binary64 := ofNat (Nat.pow 10 n)

/-- Larger powers of ten are beyond the doubles. -/
def maxPowerOfTen : Nat := 308

end Binary64

namespace Numeral

/-- The value of a decimal digit. -/
def digitValue (digit : Char) : Nat := digit.toNat - '0'.toNat

/-- Append digits to a number of 64 bits until one does not fit; the result is the number, and the
digits from that one on. -/
def appendDigits (n : Nat) : (digits : List Char) → Nat × List Char
  | [] => (n, [])
  | digit :: digits =>
      let appended := n * 10 + digitValue digit
      if appended < Nat.pow 2 64 then appendDigits appended digits else (n, digit :: digits)

end Numeral

namespace Decimal

/-- The number that the leading digits of a whole part and of places write. A digit of the whole
part that does not fit counts as a zero, and one of the places ends the number. -/
def ofLeading (whole places : List Char) : Decimal :=
  let (n, zeros) := Numeral.appendDigits 0 whole
  let (coefficient, cut) := Numeral.appendDigits n places
  ⟨coefficient, zeros.length + cut.length - places.length⟩

/-- The double that a decimal number of 64 bits scales to. A power of ten that is no double is split
in two to divide by it; beyond those a quotient is too small for any double but zero. -/
def scaled (negative : Bool) (d : Decimal) : Binary64 :=
  let start := Binary64.ofRatio negative d.coefficient 1
  let largest := Binary64.maxPowerOfTen
  match d.exponent with
  | .ofNat up =>
      if up ≤ largest then start.times (.powerOfTen up)
      else if d.coefficient = 0 then start
      else .infinite negative
  | .negSucc less =>
      let down := less + 1
      if down ≤ largest then start.dividedBy (.powerOfTen down)
      else if down ≤ 2 * largest then
        (start.dividedBy (.powerOfTen largest)).dividedBy (.powerOfTen (down - largest))
      else .ofRatio negative 0 1

end Decimal

end BlockVerilog
