/-!
Double-precision numbers of IEEE 754, exact and in `Nat` arithmetic.

A finite number is `mantissa * 2 ^ exponent / 2 ^ 1074`, so that every finite number is a whole
multiple of the least positive one. `ofRatio` rounds a quotient to the nearest of them.
-/

namespace BlockVerilog

/-- A double-precision number. A finite one stands for `mantissa * 2 ^ exponent` units of
`2 ^ -1074`. -/
inductive Binary64 where
  | nan
  | infinite (negative : Bool)
  | finite (negative : Bool) (mantissa exponent : Nat)
  deriving DecidableEq, Repr

namespace Binary64

/-- How many of the least positive number make one. -/
def unitsPerOne : Nat := Nat.pow 2 1074

/-- Mantissas stay below this. -/
def mantissaBound : Nat := Nat.pow 2 53

/-- The exponent of the largest finite numbers. -/
def maxExponent : Nat := 2045

/-- The quotient of two whole numbers, rounded to the nearest, a half to the even neighbour. -/
def roundQuotient (num den : Nat) : Nat :=
  let quotient := num / den
  let remainder := num % den
  if 2 * remainder < den then quotient
  else if den < 2 * remainder then quotient + 1
  else quotient + quotient % 2

/-- The number with this mantissa and exponent, after a carry out of the mantissa. -/
def ofMantissa (negative : Bool) (mantissa exponent : Nat) : Binary64 :=
  if mantissa < mantissaBound then
    if exponent ≤ maxExponent then finite negative mantissa exponent else infinite negative
  else
    if exponent < maxExponent then finite negative (mantissa / 2) (exponent + 1)
    else infinite negative

/-- The number nearest to `num / den`, of two equally near ones that with the even mantissa. -/
def ofRatio (negative : Bool) (num den : Nat) : Binary64 :=
  let units := num * unitsPerOne
  let exponent := (units / den).log2 - 52
  ofMantissa negative (roundQuotient units (den * Nat.pow 2 exponent)) exponent

def ofNat (n : Nat) : Binary64 :=
  ofRatio false n 1

/-- The number nearest to a whole number; zero is positive. -/
def ofInt (n : Int) : Binary64 :=
  ofRatio (n < 0) n.natAbs 1

/-- Whether the number is below zero; a negative zero is not. -/
def isNegative : Binary64 → Bool
  | nan => false
  | infinite negative => negative
  | finite negative mantissa _ => negative && mantissa != 0

def isFinite : Binary64 → Bool
  | finite .. => true
  | _ => false

/-- The distance from zero in units of `2 ^ -1074`; `none` unless the number is finite. -/
def units? : Binary64 → Option Nat
  | finite _ mantissa exponent => some (mantissa * Nat.pow 2 exponent)
  | _ => none

/-- The distance from zero of a finite number without fractional part. -/
def natAbs? (x : Binary64) : Option Nat :=
  x.units?.bind fun units =>
    if units % unitsPerOne = 0 then some (units / unitsPerOne) else none

/-- The 64 bits of the interchange format; `none` for the many that stand for no number. -/
def bits? : Binary64 → Option Nat
  | nan => none
  | infinite negative => some (negative.toNat * Nat.pow 2 63 + 2047 * Nat.pow 2 52)
  | finite negative mantissa exponent =>
      some (negative.toNat * Nat.pow 2 63 + exponent * Nat.pow 2 52 + mantissa)

end Binary64

end BlockVerilog
