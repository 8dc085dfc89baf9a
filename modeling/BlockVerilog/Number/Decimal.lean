import BlockVerilog.Number.Binary64

/-!
Decimal numbers, and the numerals that texts write them with.

`Decimal.toBinary64` rounds exactly whatever the exponent is; `parseNumber` is the grammar of
numbers in fields, `parseNat` and `parseInt` that of whole numbers in a range.
-/

namespace BlockVerilog

/-- The number `coefficient * 10 ^ exponent`. -/
structure Decimal where
  coefficient : Nat
  exponent : Int
  deriving DecidableEq, Repr

namespace Decimal

/-- The double nearest to a decimal number. The two tests on the exponent only keep the powers
small: beyond them the number is over every finite double, or under half of the least one. -/
def toBinary64 (negative : Bool) (d : Decimal) : Binary64 :=
  match d.exponent with
  | .ofNat up =>
      if d.coefficient = 0 then .ofRatio negative 0 1
      else if 400 < up then .infinite negative
      else .ofRatio negative (d.coefficient * Nat.pow 10 up) 1
  | .negSucc down =>
      if d.coefficient.log2 + 1101 < 3 * (down + 1) then .ofRatio negative 0 1
      else .ofRatio negative d.coefficient (Nat.pow 10 (down + 1))

/-- The digits of a decimal number, without exponent. -/
def positional (d : Decimal) : List Char :=
  match d.exponent with
  | .ofNat up => Nat.toDigits 10 (d.coefficient * Nat.pow 10 up)
  | .negSucc down =>
      let digits := Nat.toDigits 10 d.coefficient
      let places := down + 1
      if digits.length ≤ places then
        '0' :: '.' :: List.replicate (places - digits.length) '0' ++ digits
      else
        digits.take (digits.length - places) ++ '.' :: digits.drop (digits.length - places)

end Decimal

namespace Numeral

/-- The number that decimal digits write. -/
def ofDigits (digits : List Char) : Nat :=
  Nat.ofDigitChars 10 digits 0

/-- A non-empty text of digits. -/
def digits? (text : List Char) : Option Nat :=
  if text ≠ [] ∧ text.all Char.isDigit then some (ofDigits text) else none

/-- Cut a sign off: whether it is a minus, and the rest. -/
def cutSign : List Char → Bool × List Char
  | '-' :: rest => (true, rest)
  | '+' :: rest => (false, rest)
  | text => (false, text)

/-- A whole number below `bound`, with an optional plus sign. -/
def parseNat (bound : Nat) (text : List Char) : Option Nat :=
  let unsigned := match text with
    | '+' :: rest => rest
    | _ => text
  (digits? unsigned).filter (· < bound)

/-- A whole number of 64 bits in two's complement, with an optional sign. -/
def parseInt (text : List Char) : Option Int :=
  let (negative, unsigned) := cutSign text
  match digits? unsigned with
  | none => none
  | some n =>
      if negative then
        if n ≤ Nat.pow 2 63 then some (-(n : Int)) else none
      else
        if n < Nat.pow 2 63 then some n else none

/-- The exponent part that ends a numeral: nothing, or `e` and a signed whole number. -/
def exponent? : List Char → Option Int
  | [] => some 0
  | mark :: rest =>
      if mark = 'e' ∨ mark = 'E' then
        let (negative, unsigned) := cutSign rest
        (digits? unsigned).map fun n => if negative then -(n : Int) else n
      else none

/-- A point and digits, then the exponent part. -/
def fraction (whole : List Char) (text : List Char) : Option Decimal :=
  let places := text.takeWhile Char.isDigit
  if whole = [] ∧ places = [] then none
  else
    (exponent? (text.dropWhile Char.isDigit)).map fun e =>
      ⟨ofDigits (whole ++ places), e - places.length⟩

/-- A decimal numeral without sign: digits, optionally a point among or beside them, optionally
an exponent. -/
def decimal? (text : List Char) : Option Decimal :=
  let whole := text.takeWhile Char.isDigit
  match text.dropWhile Char.isDigit with
  | '.' :: rest => fraction whole rest
  | rest =>
      if whole = [] then none
      else (exponent? rest).map fun e => ⟨ofDigits whole, e⟩

/-- A number: an optional sign, then a decimal numeral or one of the words `inf`, `infinity` and
`nan` in any case. -/
def parseNumber (text : List Char) : Option Binary64 :=
  let (negative, unsigned) := cutSign text
  let word := String.ofList (unsigned.map Char.toLower)
  if word = "nan" then some .nan
  else if word = "inf" ∨ word = "infinity" then some (.infinite negative)
  else (decimal? unsigned).map (Decimal.toBinary64 negative)

end Numeral

end BlockVerilog
